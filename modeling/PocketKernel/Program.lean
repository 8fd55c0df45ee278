import PocketKernel.Shell.Line
import PocketKernel.Text.Utf8

/-!
# Programs and shared values

A program is the body that its entry routine calls; it prints text through its system. A cell holds
a value of which there is one for the whole machine.
-/
namespace PocketKernel

/-- Writes text to the console, in UTF-8. -/
def System.print {σ : Type} (sys : System σ) (text : List Char) : Action σ Unit :=
  sys.write (Utf8.encode text)

structure Program (σ : Type) where
  body : Action σ Unit

/-- Enters a program that many times, one after the other. -/
def Program.enter {σ : Type} (p : Program σ) : (times : Nat) → Action σ Unit
  | 0 => pure ()
  | times + 1 => do
    p.body
    p.enter times

structure Cell (α : Type) where
  content : α
  deriving DecidableEq, Repr

/-- Replaces the content and answers with the new one. -/
def Cell.update {α : Type} (f : α → α) : StateM (Cell α) α := do
  let content := f (← get).content
  set (Cell.mk content)
  pure content

/-- The content of a cell after each of the additions. -/
def Cell.additions : Cell Nat → List Nat → List Nat
  | _, [] => []
  | c, n :: rest =>
    let (content, c) := Cell.update (· + n) c
    content :: c.additions rest

end PocketKernel
