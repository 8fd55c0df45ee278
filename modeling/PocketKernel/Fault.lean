import PocketKernel.Text.Hex

/-!
# Causes of failure

Refusals are ordinary answers of the page-table code and of the file store; a fault stops the
kernel. Every cause is a constructor, and its wording is in one function per type. `Action` is a
computation on a state that may stop with a fault and then still shows the state it had reached.
-/
namespace PocketKernel

/-- Why a page could not be mapped. -/
inductive MapError where
  | unalignedVaddr (addr : UInt32)
  | unalignedPaddr (addr : UInt32)
  | superpage (addr : UInt32)
  | outOfFrames
  deriving DecidableEq, Repr

def MapError.message : MapError → String
  | unalignedVaddr addr => "unaligned vaddr " ++ Hex.marked addr.toNat
  | unalignedPaddr addr => "unaligned paddr " ++ Hex.marked addr.toNat
  | superpage addr => "superpage already covers " ++ Hex.marked addr.toNat
  | outOfFrames => "out of page-table frames"

/-- Why an archive could not be read or a file could not be stored. -/
inductive StoreError where
  | badMagic (offset : Nat)
  | badChecksum (offset : Nat)
  | truncated (offset : Nat)
  | dataTooLarge (length : Nat)
  | nameTooLong (length : Nat)
  | tableFull
  | duplicate
  deriving DecidableEq, Repr

def StoreError.message : StoreError → String
  | badMagic offset => "invalid tar header at " ++ Hex.marked offset ++ ": bad magic"
  | badChecksum offset => "invalid tar header at " ++ Hex.marked offset ++ ": checksum mismatch"
  | truncated offset => "tar entry at " ++ Hex.marked offset ++ " runs past the image"
  | dataTooLarge length => "file too large: " ++ toString length ++ " bytes"
  | nameTooLong length => "file name too long: " ++ toString length ++ " bytes"
  | tableFull => "too many files"
  | duplicate => "file already exists"

/-- Why a computation stopped. Only `refused` is answered to the caller as an error of its own;
all other faults end the machine they happen on. -/
inductive Fault where
  | refused (cause : MapError)
  | badAccess (addr : UInt32) (length : Nat)
  | outOfMemory
  | pageNotMapped (cause : MapError)
  | windowNotMapped (start length : UInt32) (cause : MapError)
  | noFreeSlot
  | idleExists
  | unexpectedTrap (scause stval sepc : UInt32)
  | unexpectedSyscall (id : UInt32)
  | exitedResumed
  | inputExhausted
  | mountFailed (cause : StoreError)
  | flushFailed (cause : StoreError)
  | sectorOutOfRange (sector : UInt32) (capacity : Nat)
  | sectorBeyondDevice (sector : UInt32) (capacity : Nat)
  | deviceMagic
  | deviceVersion
  | deviceKind
  | deviceSilent
  | stopped
  | exitReturned
  deriving DecidableEq, Repr

def Fault.message : Fault → String
  | refused cause => cause.message
  | badAccess addr length => "ram: bad access " ++ Hex.marked addr.toNat ++ "+" ++ toString length
  | outOfMemory => "out of memory"
  | pageNotMapped cause => "map_page: " ++ cause.message
  | windowNotMapped start length cause =>
    "identity_map " ++ Hex.marked start.toNat ++ "+" ++ Hex.marked length.toNat ++ ": " ++
      cause.message
  | noFreeSlot => "no free process slots"
  | idleExists => "idle process already exists"
  | unexpectedTrap scause stval sepc =>
    "unexpected trap scause=" ++ Hex.marked scause.toNat ++ ", stval=" ++ Hex.marked stval.toNat ++
      ", sepc=" ++ Hex.marked sepc.toNat
  | unexpectedSyscall id => "unexpected syscall a3=" ++ Hex.marked id.toNat
  | exitedResumed => "unreachable"
  | inputExhausted => "console: input exhausted"
  | mountFailed cause => "fs: " ++ cause.message
  | flushFailed cause => "fs: flush failed: " ++ cause.message
  | sectorOutOfRange sector capacity =>
    "sector " ++ toString sector.toNat ++ " out of range (capacity " ++ toString capacity ++
      " sectors)"
  | sectorBeyondDevice sector capacity =>
    "virtio: tried to read/write sector=" ++ toString sector.toNat ++ ", but capacity is " ++
      toString capacity
  | deviceMagic => "virtio: invalid magic value"
  | deviceVersion => "virtio: invalid version"
  | deviceKind => "virtio: invalid device id"
  | deviceSilent => "virtio: the device never answered"
  | stopped => "machine: stopped"
  | exitReturned => "internal error: entered unreachable code: exit returned"

abbrev Action (State : Type) := EStateM Fault State

namespace Action
variable {State Part α β : Type}

/-- Runs `x` on the part of the state that `view` shows and `put` replaces. -/
def within (view : State → Part) (put : Part → State → State) (x : Action Part α) :
    Action State α := fun s =>
  match x (view s) with
  | .ok a t => .ok a (put t s)
  | .error e t => .error e (put t s)

/-- Asks the state a question that may fault, and leaves the state as it is. -/
def ask (question : State → Except Fault α) : Action State α := fun s =>
  match question s with
  | .ok a => .ok a s
  | .error e => .error e s

/-- Runs `x` and renames a refusal. -/
def orElseFault (x : Action State α) (rename : MapError → Fault) : Action State α := fun s =>
  match x s with
  | .error (.refused cause) t => .error (rename cause) t
  | r => r

/-- The state that a computation ends in, whether it faulted or not. -/
def finalState (x : Action State α) (s : State) : State :=
  match x s with
  | .ok _ t => t
  | .error _ t => t

end Action

end PocketKernel
