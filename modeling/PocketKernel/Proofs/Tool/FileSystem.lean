import PocketKernel.Tool.Run

/-!
# File systems

A file system is known by what its paths lead to and by what its files hold. Through folders, links
and the working directory several paths may lead to one file, which is why a change is said of the
file. `Serves` is what a host promises: a read that it grants gives the content of the file at the
path, a write that it grants replaces one file, and a call that it refuses, for whatever reason,
changes nothing.
-/
namespace PocketKernel

/-- The files at one moment; folders are among them. -/
structure FileSystem (File : Type) where
  leads : Path → Option File
  node : File → Option Node

namespace FileSystem
variable {File : Type} {v w : FileSystem File} {p : Path} {data : Bytes} {target : File}

def read (v : FileSystem File) (p : Path) : Option Bytes :=
  match (v.leads p).bind v.node with
  | some (.file data) => some data
  | _ => none

/-- The path leads to a file that holds the data. No other file differs, and no path leads elsewhere
than before, but that a path that led nowhere may lead to this file. -/
structure Replaces (v w : FileSystem File) (p : Path) (data : Bytes) (target : File) : Prop where
  leads : w.leads p = some target
  node : w.node target = some (.file data)
  notFolder : v.node target ≠ some .folder
  others : ∀ f, f ≠ target → w.node f = v.node f
  paths : ∀ q, w.leads q = v.leads q ∨ v.leads q = none ∧ w.leads q = some target

theorem read_of_leads (leads : v.leads p = some target)
    (node : v.node target = some (.file data)) : v.read p = some data := by
  simp [read, leads, node]

end FileSystem

structure Serves {S File : Type} [Host (StateM S)] (files : S → FileSystem File) : Prop where
  read_ok {p : Path} {s t : S} {data : Bytes}
    (done : (Host.readPath p : StateM S _) s = (.ok data, t)) :
    (files s).read p = some data ∧ files t = files s
  read_error {p : Path} {s t : S} {e : SystemError}
    (refused : (Host.readPath p : StateM S _) s = (.error e, t)) : files t = files s
  write_ok {p : Path} {data : Bytes} {s t : S}
    (done : (Host.writePath p data : StateM S _) s = (.ok (), t)) :
    ∃ target, (files s).Replaces (files t) p data target
  write_error {p : Path} {data : Bytes} {s t : S} {e : SystemError}
    (refused : (Host.writePath p data : StateM S _) s = (.error e, t)) : files t = files s

end PocketKernel
