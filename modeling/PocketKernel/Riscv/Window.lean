import PocketKernel.Riscv.Machine
import PocketKernel.Virtio.Driver

/-!
# Device registers in memory

A window of device registers at a physical address. Over plain memory a register keeps what was
written to it.
-/
namespace PocketKernel

structure MemoryWindow where
  base : UInt32
  memory : Memory

namespace MemoryWindow

def onMemory {α : Type} (x : Action Memory α) : Action MemoryWindow α :=
  x.within memory fun memory w => { w with memory }

instance : RegisterWindow MemoryWindow where
  readRegister offset := Action.ask fun w => w.memory.ram.loadWord (w.base + UInt32.ofNat offset)
  writeRegister offset value := do
    onMemory (Memory.inRam (Ram.storeWord ((← get).base + UInt32.ofNat offset) value))

end MemoryWindow

/-- Runs an access to the registers at `base`. -/
def Machine.atWindow {α : Type} (base : UInt32) (x : Action MemoryWindow α) : Action Machine α :=
  x.within (fun m => ⟨base, m.memory⟩) fun w m => { m with memory := w.memory }

end PocketKernel
