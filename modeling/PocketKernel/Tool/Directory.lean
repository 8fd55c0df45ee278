import PocketKernel.Text.Utf8

/-!
# Paths and directories

A path is cut at its slashes. A directory is a tree of folders and files with a working directory in
it: an absolute path begins at the root of the tree, any other path at the working directory, and
upwards the root leads to itself. Reading and writing walk a path from part to part and fail as a
system does: at a missing name, at a file where a directory is needed, at a directory where a file
is needed, or at a name or path that is too long.
-/
namespace PocketKernel

/-- Why the system refused a file. -/
inductive SystemError where
  | noEntry
  | notDirectory
  | isDirectory
  | nameTooLong
  | other (text : String)
  deriving DecidableEq, Repr

def SystemError.message : SystemError → String
  | noEntry => "No such file or directory (os error 2)"
  | notDirectory => "Not a directory (os error 20)"
  | isDirectory => "Is a directory (os error 21)"
  | nameTooLong => "File name too long (os error 36)"
  | other text => text

abbrev Path := List Char

namespace Path

/-- The parts between the slashes; a path with `n` slashes has `n + 1` parts. -/
def parts : Path → List Path
  | [] => [[]]
  | c :: rest =>
    if c = '/' then [] :: parts rest
    else
      match parts rest with
      | [] => [[c]]
      | part :: more => (c :: part) :: more

def dot : Path := ['.']
def dotDot : Path := ['.', '.']

def isAbsolute (p : Path) : Bool := p.head? == some '/'

/-- The parts that name something. -/
def names (p : Path) : List Path := p.parts.filter fun part => part != [] && part != dot

/-- The last name, unless it leads upwards. -/
def fileName (p : Path) : Option Path :=
  match p.names.getLast? with
  | none => none
  | some name => if name = dotDot then none else some name

/-- The path of a name in a directory. -/
def join (directory name : Path) : Path :=
  if directory = [] || directory.getLast? = some '/' then directory ++ name
  else directory ++ '/' :: name

end Path

inductive Node where
  | folder
  | file (data : Bytes)
  deriving DecidableEq, Repr

/-- The folders and files of a tree, by their names from the root, and the names that lead to the
working directory. -/
structure Directory where
  nodes : List (List Path × Node)
  working : List Path
  deriving DecidableEq, Repr

namespace Directory

def node? (d : Directory) (names : List Path) : Option Node :=
  if names = [] then some .folder else d.nodes.lookup names

/-- The nodes with that one set. -/
def setNode (names : List Path) (node : Node) : List (List Path × Node) → List (List Path × Node)
  | [] => [(names, node)]
  | (other, old) :: rest =>
    if other = names then (names, node) :: rest else (other, old) :: setNode names node rest

/-- The nodes with a folder for every beginning of the names. -/
def addFolders (names : List Path) (nodes : List (List Path × Node)) : List (List Path × Node) :=
  (List.range names.length).foldl (fun nodes i => setNode (names.take (i + 1)) .folder nodes) nodes

/-- Where a path begins. -/
def startOf (d : Directory) (p : Path) : List Path := if p.isAbsolute then [] else d.working

/-- A tree with nothing in it but a working directory of that name. -/
def withHome (name : Path) : Directory := ⟨addFolders [name] [], [name]⟩

def empty : Directory := withHome ['h', 'o', 'm', 'e']

def addFolder (d : Directory) (p : Path) : Directory :=
  ⟨addFolders (d.startOf p ++ p.names) d.nodes, d.working⟩

/-- Adds a file and the folders that lead to it. -/
def addFile (d : Directory) (p : Path) (data : Bytes) : Directory :=
  let names := d.startOf p ++ p.names
  ⟨setNode names (.file data) (addFolders names.dropLast d.nodes), d.working⟩

def maxNameLength : Nat := 255
def maxPathLength : Nat := 4095

def byteLength (p : Path) : Nat := (Utf8.encode p).length

def isFolder (d : Directory) (place : List Path) : Bool := d.node? place == some .folder

/-- One part further. -/
def step (d : Directory) (place : List Path) (part : Path) : Except SystemError (List Path) :=
  if !d.isFolder place then .error .notDirectory
  else if part = [] || part = Path.dot then .ok place
  else if part = Path.dotDot then .ok place.dropLast
  else if maxNameLength < byteLength part then .error .nameTooLong
  else if (d.node? (place ++ [part])).isSome then .ok (place ++ [part])
  else .error .noEntry

def walk (d : Directory) : (place : List Path) → List Path → Except SystemError (List Path)
  | place, [] => .ok place
  | place, part :: rest => do d.walk (← d.step place part) rest

def checkLength (p : Path) : Except SystemError Unit :=
  if p = [] then .error .noEntry
  else if maxPathLength < byteLength p then .error .nameTooLong
  else .ok ()

/-- The place that a path leads to. -/
def find (d : Directory) (p : Path) : Except SystemError (List Path) := do
  checkLength p
  d.walk (d.startOf p) p.parts

/-- The content of the file at a path. -/
def read (d : Directory) (p : Path) : Except SystemError Bytes := do
  match d.node? (← d.find p) with
  | some (.file data) => .ok data
  | _ => .error .isDirectory

/-- The parts of a path without the empty ones at its end. -/
def trimmed (p : Path) : List Path := (p.parts.reverse.dropWhile (· = [])).reverse

/-- The directory with the file at a path created or replaced. The last part has to be a name with
no slash after it. -/
def write (d : Directory) (p : Path) (data : Bytes) : Except SystemError Directory := do
  checkLength p
  let parts := trimmed p
  let place ← d.walk (d.startOf p) parts.dropLast
  if !d.isFolder place then
    throw .notDirectory
  let name := parts.getLast?.getD Path.dot
  if name = Path.dot || name = Path.dotDot || parts.length < p.parts.length then
    throw .isDirectory
  if maxNameLength < byteLength name then
    throw .nameTooLong
  if d.node? (place ++ [name]) = some .folder then
    throw .isDirectory
  return ⟨setNode (place ++ [name]) (.file data) d.nodes, d.working⟩

end Directory

end PocketKernel
