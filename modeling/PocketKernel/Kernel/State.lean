import PocketKernel.Console
import PocketKernel.Files.Mount
import PocketKernel.Memory.User
import PocketKernel.Notice
import PocketKernel.Process.Core

/-!
# The kernel

The kernel holds the process table, the core, the memory, the console, the file table with its disk,
and a log of what it did. Here are the views of its parts and the mount of the file table.
-/
namespace PocketKernel

/-- The kernel maps itself from `kernelBase` on; free memory begins at `freeRam`. -/
structure Layout where
  kernelBase : UInt32
  freeRam : UInt32
  freeRamEnd : UInt32
  deriving DecidableEq, Repr

/-- The virtual address of every program image. -/
def userBase : UInt32 := 0x01000000

/-- The physical address of the block device's registers. -/
def deviceBase : UInt32 := 0x10001000

structure Kernel where
  procs : ProcessTable
  core : Core
  memory : Memory
  console : Console
  files : FileStore
  disk : Disk
  layout : Layout
  log : Log

namespace Kernel
variable {α : Type}

/-- A kernel without processes and files. All free memory exists and is zero. -/
def start (layout : Layout) (disk : Disk) (userEntry : UInt64) : Kernel where
  procs := .empty
  core := .reset userEntry
  memory := ⟨.blank layout.freeRam layout.freeRamEnd, ⟨layout.freeRam, layout.freeRamEnd⟩⟩
  console := .empty
  files := .empty
  disk := disk
  layout := layout
  log := .empty

def onMemory (x : Action Memory α) : Action Kernel α :=
  x.within memory fun memory k => { k with memory }

def onConsole (x : Action Console α) : Action Kernel α :=
  x.within console fun console k => { k with console }

def onDisk (x : Action Disk α) : Action Kernel α :=
  x.within disk fun disk k => { k with disk }

def report (n : Notice) : Action Kernel Unit := modify fun k => { k with log := k.log.add n }

/-- Replaces the file table by that of the disk. A damaged disk is fatal. -/
def mountFiles : Action Kernel Unit := do
  let k ← get
  let (files, result) ← onDisk k.files.mount
  modify fun k => { k with files }
  match result with
  | .error cause => throw (.mountFailed cause)
  | .ok _ =>
    modify fun k => { k with
      log := files.files.foldl (fun log f => log.add (.fileMounted f.name f.size)) k.log }

end Kernel

end PocketKernel
