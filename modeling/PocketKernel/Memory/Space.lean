import PocketKernel.Memory.Ram
import PocketKernel.Memory.Frames
import PocketKernel.Paging.Walk

/-!
# Address spaces

Physical memory together with its free frames carries the page tables. Here frames are taken and
cleared, pages are mapped on behalf of the kernel, and program images are copied into fresh frames.
A refusal of the page-table code is fatal in these operations.
-/
namespace PocketKernel

structure Memory where
  ram : Ram
  frames : Frames

namespace Memory

def inRam {α : Type} (x : Action Ram α) : Action Memory α :=
  x.within ram fun r m => { m with ram := r }

def load (m : Memory) (addr : UInt32) (n : Nat) : Except Fault Bytes := m.ram.load addr n

def store (addr : UInt32) (data : Bytes) : Action Memory Unit := inRam (Ram.store addr data)

/-- Takes `count` frames and clears them; the fault is raised when there are too few. -/
def takeFrames (count : Nat) (none : Fault) : Action Memory UInt32 := do
  match (← get).frames.alloc count with
  | .none => throw none
  | some (addr, frames) =>
    modify fun m => { m with frames }
    inRam (Ram.zero addr (count * pageSize))
    pure addr

instance : TableMemory Memory where
  loadWord m addr := m.ram.loadWord addr
  storeWord addr word := inRam (Ram.storeWord addr word)
  allocTable := takeFrames 1 (.refused .outOfFrames)

def allocPages (count : Nat) : Action Memory UInt32 := takeFrames count .outOfMemory

def mapPage (root va pa : UInt32) (perms : Perms) : Action Memory Unit :=
  (Paging.mapPage root va pa perms).orElseFault .pageNotMapped

/-- Maps every page of the range to itself. -/
def identityMap (root start length : UInt32) (perms : Perms) : Action Memory Unit :=
  (Paging.mapRange root start start length perms).orElseFault (.windowNotMapped start length)

/-- Copies each piece into a frame of its own and maps the frames from `va` on. -/
def loadPieces (root : UInt32) (perms : Perms) : UInt32 → List Bytes → Action Memory Unit
  | _, [] => pure ()
  | va, piece :: rest => do
    let page ← allocPages 1
    store page piece
    mapPage root va page perms
    loadPieces root perms (va + 4096) rest

def loadImage (root va : UInt32) (image : Bytes) (perms : Perms) : Action Memory Unit :=
  loadPieces root perms va (Bytes.chunks 4095 image)

def translate (m : Memory) (root va : UInt32) : Except Fault (Option UInt32) :=
  Paging.translate m root va

def leafFlags (m : Memory) (root va : UInt32) : Except Fault (Option UInt32) :=
  Paging.leafFlags m root va

end Memory

end PocketKernel
