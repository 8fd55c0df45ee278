import PocketKernel.Fault
import PocketKernel.Text.Escaped
import PocketKernel.Transcript

/-!
# Kernel notices

The kernel reports what it does in notices. Each kind of notice is a constructor, and `Notice.text`
is the line that appears on the console. A log drops the notices that come before it is opened.
-/
namespace PocketKernel

/-- The two system calls on files. -/
inductive FileCall where
  | readFile
  | writeFile
  deriving DecidableEq, Repr

def FileCall.name : FileCall → String
  | readFile => "readfile"
  | writeFile => "writefile"

inductive Notice where
  | idleCreated (slot : Nat)
  | processCreated (pid : UInt32) (slot length : Nat)
  | processExited (pid : UInt32)
  | fileMounted (name : Bytes) (size : Nat)
  | stringUnterminated (addr : UInt32)
  | badFileName (call : FileCall) (addr : UInt32)
  | fileNotFound (name : Bytes)
  | badBuffer (call : FileCall) (addr : UInt32) (count : Nat)
  | writeRefused (cause : StoreError)
  | tableWritten (count : Nat)
  | deviceFound (capacity : UInt64)
  | requestFailed (sector : UInt32) (status : UInt8)
  deriving DecidableEq, Repr

namespace Notice

def message : Notice → String
  | idleCreated slot => "created idle process (slot " ++ toString slot ++ ")"
  | processCreated pid slot length =>
    "created process " ++ toString pid.toNat ++ " (slot " ++ toString slot ++ ", image " ++
      toString length ++ " bytes)"
  | processExited pid => "process " ++ toString pid.toNat ++ " exited"
  | fileMounted name size => "file: " ++ Escaped.text name ++ ", size=" ++ toString size
  | stringUnterminated addr =>
    "user string at " ++ Hex.marked addr.toNat ++ " is not terminated"
  | badFileName call addr => call.name ++ ": bad filename pointer " ++ Hex.marked addr.toNat
  | fileNotFound name => "file not found: " ++ Escaped.text name
  | badBuffer call addr count =>
    call.name ++ ": bad buffer " ++ Hex.marked addr.toNat ++ "+" ++ toString count
  | writeRefused cause => "writefile: " ++ cause.message
  | tableWritten count => "wrote " ++ toString count ++ " bytes to disk"
  | deviceFound capacity => "virtio-blk: capacity is " ++ toString capacity.toNat ++ " bytes"
  | requestFailed sector status =>
    "virtio: warn: failed to read/write sector=" ++ toString sector.toNat ++ " status=" ++
      toString status.toNat

def text (n : Notice) : String := "[kernel] " ++ n.message ++ "\n"

end Notice

/-- The notices that were kept. -/
structure Log where
  isOpen : Bool
  notices : Transcript Notice

namespace Log

/-- The log of a machine that has just started; nothing is kept yet. -/
def closed : Log := ⟨false, .empty⟩

/-- An open log without notices. -/
def empty : Log := ⟨true, .empty⟩

def add (l : Log) (n : Notice) : Log :=
  if l.isOpen then { l with notices := l.notices.push n } else l

/-- The text of the notices, oldest first. -/
def lines (l : Log) : List String := l.notices.toList.map Notice.text

end Log

end PocketKernel
