import PocketKernel.Fault

/-!
# Page-table entries

An entry is a 32-bit word. Its bits from the lowest up are valid, read, write, execute and user,
five bits this kernel never sets, and the number of a 4096-byte frame. Fields are taken out with
division and remainder. Addresses split into a directory index, a table index and a page offset.
-/
namespace PocketKernel

def pageSize : Nat := 4096

/-- The rights of a mapped page. -/
structure Perms where
  read : Bool
  write : Bool
  exec : Bool
  user : Bool
  deriving DecidableEq, Repr

namespace Perms

def userRwx : Perms := ⟨true, true, true, true⟩
def kernelRw : Perms := ⟨true, true, false, false⟩
def kernelRwx : Perms := ⟨true, true, true, false⟩

/-- The low bits of a leaf entry with these rights; a leaf is always valid. -/
def flags (p : Perms) : UInt32 :=
  1 + (if p.read then 2 else 0) + (if p.write then 4 else 0) + (if p.exec then 8 else 0) +
    (if p.user then 16 else 0)

end Perms

namespace PageEntry

def valid (e : UInt32) : Bool := e % 2 == 1

/-- An entry with a right of its own maps a page and points to no table. -/
def isLeaf (e : UInt32) : Bool := e / 2 % 8 != 0

def flags (e : UInt32) : UInt32 := e % 1024

/-- The physical address of the frame that an entry names, in 32 bits. -/
def frame (e : UInt32) : UInt32 := e / 1024 * 4096

/-- The entry that names the frame of `addr`. -/
def make (addr flags : UInt32) : UInt32 := addr / 4096 * 1024 + flags

end PageEntry

namespace Vaddr

def aligned (va : UInt32) : Bool := va % 4096 == 0

def directoryIndex (va : UInt32) : UInt32 := va / 4194304

def tableIndex (va : UInt32) : UInt32 := va / 4096 % 1024

def offset (va : UInt32) : UInt32 := va % 4096

end Vaddr

/-- The word that selects the tables at `root`: the mode bit and the root's frame number. -/
def satpOf (root : UInt32) : UInt32 := 0x80000000 + root / 4096

end PocketKernel
