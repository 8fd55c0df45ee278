import PocketKernel.Align
import PocketKernel.Archive.Entry
import PocketKernel.Archive.Octal
import PocketKernel.Archive.Walk
import PocketKernel.BuildDirectives
import PocketKernel.Bytes
import PocketKernel.Console
import PocketKernel.Disk
import PocketKernel.Fault
import PocketKernel.Files.Mount
import PocketKernel.Files.Store
import PocketKernel.Image.Disk
import PocketKernel.Image.Elf
import PocketKernel.Image.Headers
import PocketKernel.Image.Layout
import PocketKernel.Image.Listing
import PocketKernel.Json.Reader
import PocketKernel.Json.Value
import PocketKernel.Kernel.Schedule
import PocketKernel.Kernel.State
import PocketKernel.Kernel.Syscall
import PocketKernel.Main
import PocketKernel.Memory.ByteTree
import PocketKernel.Memory.Frames
import PocketKernel.Memory.Ram
import PocketKernel.Memory.Space
import PocketKernel.Memory.User
import PocketKernel.Notice
import PocketKernel.Paging.Entry
import PocketKernel.Paging.Walk
import PocketKernel.Paging.WordMemory
import PocketKernel.Process.Core
import PocketKernel.Process.Frame
import PocketKernel.Process.Slot
import PocketKernel.Process.Stack
import PocketKernel.Process.Table
import PocketKernel.Program
import PocketKernel.Proofs.Action
import PocketKernel.Proofs.Archive.Damage
import PocketKernel.Proofs.Archive.Fields
import PocketKernel.Proofs.Archive.Format
import PocketKernel.Proofs.Archive.InPlace
import PocketKernel.Proofs.Archive.Octal
import PocketKernel.Proofs.Archive.RoundTrip
import PocketKernel.Proofs.Archive.Size
import PocketKernel.Proofs.Archive.Trail
import PocketKernel.Proofs.Bytes
import PocketKernel.Proofs.Except
import PocketKernel.Proofs.Files.Calls
import PocketKernel.Proofs.Files.Filling
import PocketKernel.Proofs.Files.Flaws
import PocketKernel.Proofs.Files.Image
import PocketKernel.Proofs.Files.Names
import PocketKernel.Proofs.Files.Reach
import PocketKernel.Proofs.Files.Residue
import PocketKernel.Proofs.Files.Sectors
import PocketKernel.Proofs.Files.Slots
import PocketKernel.Proofs.Files.Tables
import PocketKernel.Proofs.Image.Build
import PocketKernel.Proofs.Image.Flat
import PocketKernel.Proofs.Image.Headers
import PocketKernel.Proofs.Image.Layout
import PocketKernel.Proofs.Image.Overflow
import PocketKernel.Proofs.Kernel.AddressSpace
import PocketKernel.Proofs.Kernel.Answers
import PocketKernel.Proofs.Kernel.Budget
import PocketKernel.Proofs.Kernel.Creation
import PocketKernel.Proofs.Kernel.Events
import PocketKernel.Proofs.Kernel.Fairness
import PocketKernel.Proofs.Kernel.FileCalls
import PocketKernel.Proofs.Kernel.Isolation
import PocketKernel.Proofs.Kernel.Lifecycle
import PocketKernel.Proofs.Kernel.Operation
import PocketKernel.Proofs.Kernel.Ownership
import PocketKernel.Proofs.Kernel.Persistence
import PocketKernel.Proofs.Kernel.Programs
import PocketKernel.Proofs.Kernel.Reading
import PocketKernel.Proofs.Kernel.Restoration
import PocketKernel.Proofs.Kernel.Selection
import PocketKernel.Proofs.Kernel.Transfers
import PocketKernel.Proofs.Kernel.Turns
import PocketKernel.Proofs.Kernel.Writing
import PocketKernel.Proofs.Memory.Allotment
import PocketKernel.Proofs.Memory.Bounds
import PocketKernel.Proofs.Memory.Budget
import PocketKernel.Proofs.Memory.Bytewise
import PocketKernel.Proofs.Memory.Isolation
import PocketKernel.Proofs.Memory.Limits
import PocketKernel.Proofs.Memory.Ram
import PocketKernel.Proofs.Memory.Strings
import PocketKernel.Proofs.Memory.Tables
import PocketKernel.Proofs.Memory.UserBytes
import PocketKernel.Proofs.Memory.UserCopy
import PocketKernel.Proofs.Memory.Words
import PocketKernel.Proofs.Paging.Entry
import PocketKernel.Proofs.Paging.Extent
import PocketKernel.Proofs.Paging.Forest
import PocketKernel.Proofs.Paging.Isolation
import PocketKernel.Proofs.Paging.Lawful
import PocketKernel.Proofs.Paging.Map
import PocketKernel.Proofs.Paging.Range
import PocketKernel.Proofs.Paging.Supplied
import PocketKernel.Proofs.Paging.Walk
import PocketKernel.Proofs.Process.Context
import PocketKernel.Proofs.Process.Numbering
import PocketKernel.Proofs.Process.Rotation
import PocketKernel.Proofs.Process.Table
import PocketKernel.Proofs.Riscv.Calls
import PocketKernel.Proofs.Riscv.Computer
import PocketKernel.Proofs.Riscv.Handlers
import PocketKernel.Proofs.Riscv.Routines
import PocketKernel.Proofs.Riscv.Stacks
import PocketKernel.Proofs.Riscv.Streams
import PocketKernel.Proofs.Riscv.Switches
import PocketKernel.Proofs.Riscv.TrapFrame
import PocketKernel.Proofs.Rounding
import PocketKernel.Proofs.Shell.Lines
import PocketKernel.Proofs.Shell.Sessions
import PocketKernel.Proofs.Tool.Atomicity
import PocketKernel.Proofs.Tool.Directory
import PocketKernel.Proofs.Tool.FileSystem
import PocketKernel.Proofs.Virtio.Mounting
import PocketKernel.Proofs.Virtio.Refinement
import PocketKernel.Proofs.Virtio.Service
import PocketKernel.Riscv.Machine
import PocketKernel.Riscv.Routine
import PocketKernel.Riscv.Window
import PocketKernel.Shell.Calls
import PocketKernel.Shell.Hosted
import PocketKernel.Shell.Line
import PocketKernel.Shell.Terminal
import PocketKernel.Text.Escaped
import PocketKernel.Text.Hex
import PocketKernel.Text.Quoted
import PocketKernel.Text.Unprintable
import PocketKernel.Text.Utf8
import PocketKernel.Tool.Arguments
import PocketKernel.Tool.Directory
import PocketKernel.Tool.Run
import PocketKernel.Transcript
import PocketKernel.Trap.Register
import PocketKernel.Virtio.Device
import PocketKernel.Virtio.Driver
import PocketKernel.Virtio.Queue
