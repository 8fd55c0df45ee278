import PocketKernel.Paging.Entry

/-!
# Two-level page tables

A directory of 1024 entries points to tables of 1024 leaf entries. The tables live in a memory of
words that hands out fresh tables on demand. `mapPage` sets one leaf, `mapRange` all leaves of a
range, `leaf?` finds the leaf of an address, and `translate` and `leafFlags` read it.
-/
namespace PocketKernel

/-- Memory that page tables live in: words by physical address and a supply of tables. -/
class TableMemory (M : Type) where
  loadWord : M → UInt32 → Except Fault UInt32
  storeWord : UInt32 → UInt32 → Action M Unit
  allocTable : Action M UInt32

namespace Paging
open TableMemory
variable {M : Type} [TableMemory M]

/-- Where the directory entry of `va` is. -/
def directorySlot (root va : UInt32) : UInt32 := root + Vaddr.directoryIndex va * 4

/-- Where the leaf entry of `va` is, in the table that the directory entry points to. -/
def leafSlot (directory va : UInt32) : UInt32 := PageEntry.frame directory + Vaddr.tableIndex va * 4

/-- The directory entry of `va`; a missing table is taken from the supply and linked in. -/
def directoryEntry (root va : UInt32) : Action M UInt32 := do
  let entry ← Action.ask (loadWord · (directorySlot root va))
  if !PageEntry.valid entry then
    let table ← allocTable
    let fresh := PageEntry.make table 1
    storeWord (directorySlot root va) fresh
    pure fresh
  else if PageEntry.isLeaf entry then
    throw (.refused (.superpage va))
  else
    pure entry

/-- Maps the page at `va` to the frame at `pa`, in place of what was mapped there. -/
def mapPage (root va pa : UInt32) (perms : Perms) : Action M Unit := do
  if !Vaddr.aligned va then
    throw (.refused (.unalignedVaddr va))
  if !Vaddr.aligned pa then
    throw (.refused (.unalignedPaddr pa))
  let entry ← directoryEntry root va
  storeWord (leafSlot entry va) (PageEntry.make pa perms.flags)

/-- Maps `count` pages from `va` to the frames from `pa`, in order; addresses wrap at 32 bits. -/
def mapPages (root : UInt32) (perms : Perms) : (count : Nat) → (va pa : UInt32) → Action M Unit
  | 0, _, _ => pure ()
  | count + 1, va, pa => do
    mapPage root va pa perms
    mapPages root perms count (va + 4096) (pa + 4096)

def pageCount (length : Nat) : Nat := (length + 4095) / 4096

/-- Maps every page that `length` bytes from `va` on meet; a refusal keeps the pages before it. -/
def mapRange (root va pa length : UInt32) (perms : Perms) : Action M Unit :=
  mapPages root perms (pageCount length.toNat) va pa

/-- The leaf entry of `va`, if one is valid and below a directory entry that points to a table. -/
def leaf? (m : M) (root va : UInt32) : Except Fault (Option UInt32) := do
  let entry ← loadWord m (directorySlot root va)
  if PageEntry.valid entry && !PageEntry.isLeaf entry then
    let leaf ← loadWord m (leafSlot entry va)
    pure (if PageEntry.valid leaf then some leaf else none)
  else
    pure none

/-- The physical address behind `va`. -/
def translate (m : M) (root va : UInt32) : Except Fault (Option UInt32) := do
  return (← leaf? m root va).map fun leaf => PageEntry.frame leaf + Vaddr.offset va

def leafFlags (m : M) (root va : UInt32) : Except Fault (Option UInt32) := do
  return (← leaf? m root va).map PageEntry.flags

end Paging

end PocketKernel
