import PocketKernel.Image.Disk
import PocketKernel.Image.Headers
import PocketKernel.Image.Layout
import PocketKernel.Kernel.State
import PocketKernel.Tool.Arguments

/-!
# Running the image tool

The commands read and write files through a host, which is a tree of files or the system itself, and
find the headers of a program file with a reader. A command reads everything first and writes one
file at the end, so one that fails changes nothing. Its exit code is 0, or 1 with a message, or 101
when a step of it could not be done; words that are no command give 2.
-/
namespace PocketKernel

/-- A system of files on which commands run. -/
class Host (m : Type → Type) where
  readPath : Path → m (Except SystemError Bytes)
  writePath : Path → Bytes → m (Except SystemError Unit)

instance : Host (StateM Directory) where
  readPath p := do return (← get).read p
  writePath p data := do
    match (← get).write p data with
    | .ok d =>
      set d
      return .ok ()
    | .error e => return .error e

/-- Why a command failed. -/
inductive ToolError where
  | notRead (path : Path) (cause : SystemError)
  | notParsed (path : Path) (cause : ElfError)
  | noSegments (path : Path)
  | wrongBase (path : Path) (base : Nat)
  | notWritten (path : Path) (cause : SystemError)
  | noName (path : Path)
  | notBuilt (cause : BuildError)
  | notListed (cause : StoreError)
  /-- The command did not end by itself. -/
  | stopped (cause : ElfError)
  deriving DecidableEq, Repr

namespace ToolError

def message : ToolError → String
  | notRead path cause => "Failed to read " ++ String.ofList path ++ ": " ++ cause.message
  | notParsed path cause => "Failed to parse " ++ String.ofList path ++ ": " ++ cause.message
  | noSegments path => String.ofList path ++ " has no loadable segments"
  | wrongBase path base =>
    String.ofList path ++ " is linked at " ++ Hex.marked base ++ ", expected " ++
      Hex.marked userBase.toNat ++ " (pass --any-base to allow)"
  | notWritten path cause => "Failed to write " ++ String.ofList path ++ ": " ++ cause.message
  | noName path => "cannot name " ++ String.ofList path ++ " inside the image"
  | notBuilt cause => cause.message
  | notListed cause => DiskImage.listMessage cause
  | stopped cause => cause.message

/-- What becomes of a file that is not accepted. -/
def ofParse (path : Path) (cause : ElfError) : ToolError :=
  if cause.isFault then .stopped cause else .notParsed path cause

end ToolError

/-- What a command prints, and how it ended. -/
structure Outcome where
  printed : String
  result : Except ToolError Unit

namespace Outcome

def failed (cause : ToolError) (printed : String) : Outcome := ⟨printed, .error cause⟩

def code (o : Outcome) : Nat :=
  match o.result with
  | .ok _ => 0
  | .error (.stopped _) => 101
  | .error _ => 1

/-- The text for the error channel. -/
def complaint (o : Outcome) : String :=
  match o.result with
  | .ok _ => ""
  | .error (.stopped cause) => cause.message ++ "\n"
  | .error cause => "Error: " ++ cause.message ++ "\n"

end Outcome

namespace Tool
variable {m : Type → Type} [Monad m] [Host m]

/-- Writes the output of a command and prints `report` when that worked. -/
def finish (output : Path) (image : Bytes) (before report : String) : m Outcome := do
  match ← Host.writePath output image with
  | .error cause => pure (.failed (.notWritten output cause) before)
  | .ok _ => pure ⟨before ++ report, .ok ()⟩

/-- The notice on a program that is not entered at its lowest address. -/
def entryWarning (entry base : Nat) : String :=
  if entry = base then ""
  else "warning: entry " ++ Hex.marked entry ++ " is not the image base " ++ Hex.marked base ++ "\n"

def flat (read : ProgramReader) (elf output : Path) (anyBase : Bool) : m Outcome := do
  match ← Host.readPath elf with
  | .error cause => pure (.failed (.notRead elf cause) "")
  | .ok file =>
    match LoadPlan.ofFile read file with
    | .error cause => pure (.failed (.ofParse elf cause) "")
    | .ok p =>
      match p.layOut with
      | .error cause => pure (.failed (.stopped cause) "")
      | .ok none => pure (.failed (.noSegments elf) "")
      | .ok (some (image, base)) =>
        if base ≠ userBase.toNat ∧ !anyBase then
          pure (.failed (.wrongBase elf base) "")
        else
          finish output image (entryWarning p.entry base)
            ("wrote " ++ String.ofList output ++ " (" ++ toString image.length ++ " bytes, base " ++
              Hex.marked base ++ ", " ++ toString p.segments.length ++ " segments)\n")

/-- Reads the files in order, each under its own name; stops at the first that cannot be used. -/
def readFiles : List Path → m (Except ToolError (List (List Char × Bytes)))
  | [] => pure (.ok [])
  | path :: rest => do
    match path.fileName with
    | none => pure (.error (.noName path))
    | some name =>
      match ← Host.readPath path with
      | .error cause => pure (.error (.notRead path cause))
      | .ok data => return (← readFiles rest).map ((name, data) :: ·)

def mkdisk (files : List Path) (output : Path) : m Outcome := do
  match ← readFiles files with
  | .error cause => pure (.failed cause "")
  | .ok entries =>
    match DiskImage.build entries with
    | .error cause => pure (.failed (.notBuilt cause) "")
    | .ok image =>
      let line (e : List Char × Bytes) : String :=
        "  + " ++ String.ofList e.1 ++ " (" ++ toString e.2.length ++ " bytes)\n"
      finish output image ""
        (String.join (entries.map line) ++ "wrote " ++ String.ofList output ++ " (" ++
          toString image.length ++ " bytes)\n")

def ls (disk : Path) (format : ListFormat) : m Outcome := do
  match ← Host.readPath disk with
  | .error cause => pure (.failed (.notRead disk cause) "")
  | .ok image =>
    match DiskImage.list image with
    | .error cause => pure (.failed (.notListed cause) "")
    | .ok found =>
      match format with
      | .text => pure ⟨found.text, .ok ()⟩
      | .json => pure ⟨found.toJson.pretty 0 ++ "\n", .ok ()⟩

def runWith (read : ProgramReader) : Command → m Outcome
  | .flat elf output anyBase => flat read elf output anyBase
  | .mkdisk files output => mkdisk files output
  | .ls disk format => ls disk format

def run : Command → m Outcome := runWith ProgramFile.reader

end Tool

end PocketKernel
