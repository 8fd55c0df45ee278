import PocketKernel.Kernel.Syscall
import PocketKernel.Shell.Line

/-!
# Programs without a kernel

A program that does not run on the kernel's processor has nothing to trap into, and every call
answers `failed`. A byte read is then the low byte of that answer, and an exit returns, which it
must not.
-/
namespace PocketKernel.Hosted

/-- A call without a kernel. -/
def call (_id _arg0 _arg1 _arg2 : UInt32) : UInt32 := Syscall.failed

def fetch (_name : Bytes) {n : Nat} (buffer : Buffer n) : Option (Nat × Buffer n) :=
  (Syscall.fileResult (call Syscall.readFile 0 0 (UInt32.ofNat n))).map (·, buffer)

def replace (_name data : Bytes) : Option Nat :=
  Syscall.fileResult (call Syscall.writeFile 0 0 (UInt32.ofNat data.length))

def system : System Unit where
  putChar _ := pure ()
  getChar := pure (call Syscall.getChar 0 0 0).toUInt8
  readFile name _ buffer := pure (fetch name buffer)
  writeFile name data := pure (replace name data)

def exit : Action Unit Unit := do
  let _ := call Syscall.exit 0 0 0
  throw .exitReturned

end PocketKernel.Hosted
