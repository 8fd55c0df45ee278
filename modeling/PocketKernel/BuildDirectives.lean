import PocketKernel.Tool.Directory

/-!
# Build directives

The kernel and the programs are linked with scripts of their own. The build tool is told so by lines
of text, which depend on the package's directory and on the processor it is built for. Without a
directory there is no answer.
-/
namespace PocketKernel

/-- What a build knows about a package. -/
structure BuildEnvironment where
  directory : Option Path
  processor : Option String
  /-- The image of the shell that the kernel is to contain. -/
  shellImage : Option String
  deriving DecidableEq, Repr

/-- The lines that were printed, and the exit code. -/
structure BuildReport where
  lines : List String
  code : Nat
  deriving DecidableEq, Repr

namespace BuildReport

/-- The exit code of a build without a directory. -/
def aborted : Nat := 101

/-- The processor that the scripts are for. -/
def target : String := "riscv32"

def link (argument : String) : String := "cargo:rustc-link-arg-" ++ argument

def kernel (e : BuildEnvironment) : BuildReport :=
  match e.directory with
  | none => ⟨[], aborted⟩
  | some directory =>
    let always := ["cargo:rerun-if-changed=kernel.ld", "cargo:rerun-if-env-changed=SHELL_BIN"]
    if e.processor ≠ some target then
      ⟨always, 0⟩
    else
      let script := String.ofList (Path.join directory "kernel.ld".toList)
      let reminder :=
        if e.shellImage.isNone then
          ["cargo:warning=SHELL_BIN is not set; build the shell and run \x60imgtool flat\x60 first"]
        else []
      let links := [link ("bin=kernel=-T" ++ script), link "bin=kernel=-Map=kernel.map"]
      ⟨always ++ links ++ reminder, 0⟩

def program (e : BuildEnvironment) : BuildReport :=
  let always := ["cargo:rerun-if-changed=user.ld"]
  match e.directory with
  | none => ⟨always, aborted⟩
  | some directory =>
    if e.processor ≠ some target then
      ⟨always, 0⟩
    else
      ⟨always ++ [link ("bins=-T" ++ String.ofList (Path.join directory "user.ld".toList))], 0⟩

def text (r : BuildReport) : String := String.join (r.lines.map (· ++ "\n"))

end BuildReport

end PocketKernel
