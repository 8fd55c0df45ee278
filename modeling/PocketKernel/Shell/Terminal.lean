import PocketKernel.Shell.Line
import PocketKernel.Transcript

/-!
# A terminal with files

The shell on its own: input comes from a list of bytes, output is collected, and files are kept by
name. A read copies what fits into the buffer and reports that many bytes, unless the terminal is
made to report another number.
-/
namespace PocketKernel

structure Terminal where
  input : Bytes
  output : Transcript UInt8
  /-- Names and contents in the order of the names. -/
  files : List (Bytes × Bytes)
  /-- The number of bytes that every successful read reports, if not the true one. -/
  reported : Option Nat
  deriving DecidableEq, Repr

namespace Terminal

/-- The files with the content of a name set, in the order of the names. -/
def setFile (name data : Bytes) : List (Bytes × Bytes) → List (Bytes × Bytes)
  | [] => [(name, data)]
  | (other, content) :: rest =>
    if name = other then (name, data) :: rest
    else if name < other then (name, data) :: (other, content) :: rest
    else (other, content) :: setFile name data rest

def start (input : Bytes) (files : List (Bytes × Bytes)) (reported : Option Nat) : Terminal where
  input := input
  output := .empty
  files := files.foldl (fun sorted file => setFile file.1 file.2 sorted) []
  reported := reported

def content (t : Terminal) (name : Bytes) : Option Bytes := t.files.lookup name

def system : System Terminal where
  putChar b := modify fun t => { t with output := t.output.push b }
  getChar := do
    match (← get).input with
    | [] => throw .inputExhausted
    | b :: rest =>
      modify fun t => { t with input := rest }
      pure b
  readFile name n buffer := do
    let t ← get
    match t.content name with
    | none => pure none
    | some data =>
      let copied := data.take n
      pure (some (t.reported.getD copied.length, buffer.fill copied (List.length_take_le n data)))
  writeFile name data := do
    let t ← get
    match t.content name with
    | none => pure none
    | some _ =>
      set { t with files := setFile name data t.files }
      pure (some data.length)

/-- Runs the shell until it exits or the input ends. -/
def run : Action Terminal Unit := do Shell.run system ((← get).input.length + 1)

end Terminal

end PocketKernel
