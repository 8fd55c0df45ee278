import PocketKernel.Text.Hex

/-!
# General registers

The processor has thirty-one general registers. A register file gives each its word. A trap frame is
the register file of the interrupted program, stored as words in the order of `Register.all`.
-/
namespace PocketKernel

inductive Register where
  | ra | gp | tp
  | t0 | t1 | t2 | t3 | t4 | t5 | t6
  | a0 | a1 | a2 | a3 | a4 | a5 | a6 | a7
  | s0 | s1 | s2 | s3 | s4 | s5 | s6 | s7 | s8 | s9 | s10 | s11
  | sp
  deriving DecidableEq, Repr

namespace Register

/-- The registers in the order of a trap frame. -/
def all : List Register :=
  [ra, gp, tp, t0, t1, t2, t3, t4, t5, t6, a0, a1, a2, a3, a4, a5, a6, a7,
    s0, s1, s2, s3, s4, s5, s6, s7, s8, s9, s10, s11, sp]

/-- The place of a register in a trap frame. -/
def index : Register → Fin 31
  | ra => 0 | gp => 1 | tp => 2
  | t0 => 3 | t1 => 4 | t2 => 5 | t3 => 6 | t4 => 7 | t5 => 8 | t6 => 9
  | a0 => 10 | a1 => 11 | a2 => 12 | a3 => 13 | a4 => 14 | a5 => 15 | a6 => 16 | a7 => 17
  | s0 => 18 | s1 => 19 | s2 => 20 | s3 => 21 | s4 => 22 | s5 => 23
  | s6 => 24 | s7 => 25 | s8 => 26 | s9 => 27 | s10 => 28 | s11 => 29
  | sp => 30

theorem all_index (r : Register) : all[r.index]? = some r := by cases r <;> rfl

def name : Register → String
  | ra => "ra" | gp => "gp" | tp => "tp"
  | t0 => "t0" | t1 => "t1" | t2 => "t2" | t3 => "t3" | t4 => "t4" | t5 => "t5" | t6 => "t6"
  | a0 => "a0" | a1 => "a1" | a2 => "a2" | a3 => "a3"
  | a4 => "a4" | a5 => "a5" | a6 => "a6" | a7 => "a7"
  | s0 => "s0" | s1 => "s1" | s2 => "s2" | s3 => "s3" | s4 => "s4" | s5 => "s5"
  | s6 => "s6" | s7 => "s7" | s8 => "s8" | s9 => "s9" | s10 => "s10" | s11 => "s11"
  | sp => "sp"

/-- Argument registers. -/
def arguments : List Register := [a0, a1, a2, a3, a4, a5, a6, a7]

/-- Registers that a call preserves. -/
def saved : List Register := [s0, s1, s2, s3, s4, s5, s6, s7, s8, s9, s10, s11]

def temporaries : List Register := [t0, t1, t2, t3, t4, t5, t6]

end Register

/-- A word for every general register. -/
abbrev RegisterFile := Register → UInt32

namespace RegisterFile

def zero : RegisterFile := fun _ => 0

def set (f : RegisterFile) (r : Register) (word : UInt32) : RegisterFile :=
  fun other => if other = r then word else f other

/-- The words in the order of a trap frame. -/
def toWords (f : RegisterFile) : List UInt32 := Register.all.map f

@[simp] theorem length_toWords (f : RegisterFile) : f.toWords.length = 31 := by
  simp [toWords, Register.all]

/-- Missing words count as zero. -/
def ofWords (words : List UInt32) : RegisterFile :=
  let table := words.toArray
  fun r => table.getD r.index 0

theorem ofWords_apply (words : List UInt32) (r : Register) :
    ofWords words r = words.getD r.index 0 := by
  simp [ofWords]

/-- One line that names every register with its word. -/
def text (f : RegisterFile) : String :=
  let item (r : Register) := "\"" ++ r.name ++ "\": 0x" ++ Hex.padded 8 (f r).toNat
  "\x7b" ++ String.intercalate ", " (Register.all.map item) ++ "\x7d"

end RegisterFile

end PocketKernel
