import Mathlib
import PocketKernel.Proofs.Image.Layout
import PocketKernel.Proofs.Kernel.Creation
import PocketKernel.Proofs.Memory.Limits

/-!
# Programs in memory

A process is created with the flat image of a program file. What it then has in memory is said here
in terms of the file: at the addresses of a segment the bytes that the file has for it and zeros
behind them, and zeros at all other addresses of its pages. Main statement: `memory_of_program`.
-/
namespace PocketKernel.Kernel
open Memory Paging TableView
variable {k k' : Kernel} {pid : UInt32} {slot : Slot} {image : Bytes}

structure HasByte (k : Kernel) (slot : Slot) (va : UInt32) (b : UInt8) : Prop where
  flags : k.memory.leafFlags (k.procs.process slot).pageTable va = .ok (some 0b11111)
  byte : ∃ pa, k.memory.translate (k.procs.process slot).pageTable va = .ok (some pa) ∧
    k.memory.ram.byteAt pa.toNat = b

def UserMapped (k : Kernel) (slot : Slot) (va : UInt32) : Prop :=
  ∃ flags, k.memory.leafFlags (k.procs.process slot).pageTable va = .ok (some flags) ∧
    PageEntry.forUser flags = true

theorem exists_chunks_eq (nonempty : image ≠ []) :
    ∃ piece rest, Bytes.chunks 4095 image = piece :: rest := by
  cases image with
  | nil => exact absurd rfl nonempty
  | cons b rest =>
    rw [Bytes.chunks]
    exact ⟨_, _, rfl⟩

/-- A creation builds an address space and loads the image, in a memory in order. -/
theorem space_of_creation (nonempty : image ≠ []) (done : createProcess image k = .ok pid k') :
    ∃ slot root m, k.procs.freeSlot = some slot ∧ (k'.procs.process slot).pid = pid ∧
      (k'.procs.process slot).pageTable = root ∧
      Builds ∅ root k.layout.kernelBase (k.layout.freeRamEnd - k.layout.kernelBase) deviceBase
        k.memory.capped m ∧
      Loads {root} root userBase .userRwx (Bytes.chunks 4095 image) m k'.memory.capped := by
  obtain ⟨slot, root, m₁, m₂, log, free, made, loaded, rfl, rfl⟩ := createProcess_eq_ok done
  unfold newSpace at made
  rw [Action.get_bind] at made
  obtain ⟨m, built, same⟩ := onMemory_eq_ok.1 made
  obtain rfl : m₁ = m := congrArg Kernel.memory same
  obtain ⟨piece, rest, pieces⟩ := exists_chunks_eq nonempty
  rw [loadImage, pieces] at loaded
  obtain ⟨builds, loads⟩ := space_of_done built loaded
  have here : (k.procs.install slot k.procs.nextPid root (some (Core.seedPlace slot))).process
      slot = ⟨k.procs.nextPid, .runnable, some (Core.seedPlace slot), root⟩ := by
    rw [ProcessTable.process_install, if_pos rfl]
  rw [← pieces] at loads
  exact ⟨slot, root, _, free, congrArg Process.pid here, congrArg Process.pageTable here, builds,
    loads⟩

/-- The pages that user code may reach in a new process are those of the image. They hold the image
and zeros behind it. Nothing is asked of the kernel but that the creation was done. -/
theorem bytes_of_createProcess (nonempty : image ≠ [])
    (done : createProcess image k = .ok pid k') :
    ∃ slot, k.procs.freeSlot = some slot ∧ (k'.procs.process slot).pid = pid ∧
      image.length < UInt32.size ∧
      (∀ va, Vaddr.InPages userBase (pageCount image.length) va →
        HasByte k' slot va (image.getD (va - userBase).toNat 0)) ∧
      ∀ va, UserMapped k' slot va → Vaddr.InPages userBase (pageCount image.length) va := by
  obtain ⟨slot, root, m, free, number, table, builds, loads⟩ := space_of_creation nonempty done
  have rooted : root ∈ ({root} : Set UInt32) := Set.mem_singleton _
  have pieces : (Bytes.chunks 4095 image).length = pageCount image.length := Bytes.length_chunks _ _
  refine ⟨slot, free, number, ?_, fun va inside => ?_, fun va ⟨flags, mapped, user⟩ => ?_⟩
  · have next := loads.next
    have := k'.memory.capped.frames.next.toNat_lt
    rw [pieces, pageCount] at next
    rw [show UInt32.size = 4294967296 from rfl]
    omega
  · obtain ⟨flags, pa, place, -, -, byte⟩ := loads.byte rooted rfl inside
    rw [← table] at flags place
    exact ⟨flags, pa, place, byte⟩
  · -- the other pages of the new address space are those of the kernel
    by_contra outside
    have read : k'.memory.capped.leafFlags root va = .ok (some flags) := table ▸ mapped
    rw [Memory.leafFlags, loads.isolated.forest.leafFlags_eq rooted, loads.other root rooted va,
      builds.leaf] at read
    · split_ifs at read
      · cases read
        rw [PageEntry.flags_make Perms.kernelRw.flags_lt, Perms.forUser_flags] at user
        cases user
      · cases read
        rw [PageEntry.flags_make Perms.kernelRwx.flags_lt, Perms.forUser_flags] at user
        cases user
      · cases read
    · rw [pieces]
      exact fun inside => outside inside.2

/-- An address as the image's base and a distance. -/
theorem toNat_sub_userBase {n : Nat} (low : userBase.toNat ≤ n)
    (small : n - userBase.toNat < UInt32.size) :
    (UInt32.ofNat n - userBase).toNat = n - userBase.toNat := by
  rw [UInt32.toNat_sub, UInt32.toNat_ofNat']
  rw [show UInt32.size = 4294967296 from rfl] at small
  rw [show userBase.toNat = 16777216 from rfl] at low small ⊢
  omega

theorem ofNat_userBase_add (va : UInt32) :
    UInt32.ofNat (userBase.toNat + (va - userBase).toNat) = va := by
  rw [← UInt32.toNat_inj, UInt32.toNat_ofNat', UInt32.toNat_sub,
    show userBase.toNat = 16777216 from rfl]
  have := va.toNat_lt
  omega

/-- A program file whose segments do not meet is accepted and laid out from `userBase` on, and a
process is created with the image in any state of the kernel in which that can be done. At every
address of a segment the process then has the byte that the file has for it, or zero behind the
bytes of the file, and zero at all other addresses that user code may reach. The reader of the file
is any that reports the program headers as they are stored. -/
theorem memory_of_program {read : ProgramReader} (faithful : ReportsStored read) {file : Bytes}
    {plan : LoadPlan} (accepted : LoadPlan.ofFile read file = .ok plan)
    (apart : ((storedHeaders file).filter Segment.isLoaded).Pairwise ProgramHeader.Apart)
    (laidOut : plan.layOut = .ok (some (image, userBase.toNat)))
    (done : createProcess image k = .ok pid k') :
    ∃ slot, k.procs.freeSlot = some slot ∧ (k'.procs.process slot).pid = pid ∧
      (∀ h ∈ (storedHeaders file).filter Segment.isLoaded, ∀ i < h.memSize, ∃ b,
        h.byte? file i = some b ∧ HasByte k' slot (UInt32.ofNat (h.vaddr + i)) b) ∧
      ∀ va, UserMapped k' slot va →
        (∀ h ∈ (storedHeaders file).filter Segment.isLoaded, ∀ i < h.memSize,
          va ≠ UInt32.ofNat (h.vaddr + i)) →
        HasByte k' slot va 0 := by
  have loaded := LoadPlan.ofFile_storedHeaders faithful accepted
  have flattened := LoadPlan.flatten_of_layOut (LoadPlan.data_le_of_ofFile loaded) laidOut
  have lays := LoadPlan.lays_of_flatten loaded apart flattened
  obtain ⟨slot, free, number, small, bytes, mapped⟩ := bytes_of_createProcess lays.nonempty done
  refine ⟨slot, free, number, fun h hh i hi => ?_, fun va user outside => ?_⟩
  · obtain ⟨low, inImage, byte⟩ := lays.inside h hh i hi
    refine ⟨_, byte, ?_⟩
    have distance :
        (UInt32.ofNat (h.vaddr + i) - userBase).toNat = h.vaddr - userBase.toNat + i := by
      rw [toNat_sub_userBase (by omega) (by omega)]
      omega
    have inPages :
        Vaddr.InPages userBase (pageCount image.length) (UInt32.ofNat (h.vaddr + i)) := by
      rw [Vaddr.InPages, distance, pageCount]
      omega
    rw [← distance]
    exact bytes _ inPages
  · have zero : image.getD (va - userBase).toNat 0 = 0 := by
      refine lays.outside _ fun h hh j hj same => outside h hh j hj ?_
      rw [← same, ofNat_userBase_add]
    exact zero ▸ bytes va (mapped va user)

/-- A program file of two segments: a byte with three zeros behind it, and two bytes below it. -/
def twoSegments : Bytes :=
  ProgramFile.magic ++ [1, 1] ++ Bytes.zeros 10 ++
    [0, 0, 0, 0, 0, 0, 0, 0, 0, 0, 0, 1, 52, 0, 0, 0] ++ Bytes.zeros 12 ++ [2, 0] ++
    Bytes.zeros 6 ++ [1, 116, 0x01000008, 0, 1, 4, 0, 0].flatMap (Bytes.ofLE 4) ++
    [1, 117, 0x01000000, 0, 2, 2, 0, 0].flatMap (Bytes.ofLE 4) ++
    [0x61, 0x62, 0x63]

def upperHeader : ProgramHeader := ⟨1, 116, 0x01000008, 1, 4⟩

def lowerHeader : ProgramHeader := ⟨1, 117, 0x01000000, 2, 2⟩

def twoSegmentsImage : Bytes := [0x62, 0x63, 0, 0, 0, 0, 0, 0, 0x61, 0, 0, 0]

def withTwoSegments : Kernel := Action.finalState (createProcess twoSegmentsImage) smallIdle

/-- Each segment has its bytes of the file, the upper one has a zero behind them, and the bytes
between the segments are zero. -/
theorem memory_of_program_twoSegments : ∃ slot,
    HasByte withTwoSegments slot 0x01000008 0x61 ∧ HasByte withTwoSegments slot 0x0100000b 0 ∧
      HasByte withTwoSegments slot 0x01000001 0x63 ∧ HasByte withTwoSegments slot 0x01000004 0 := by
  obtain ⟨pid, made⟩ :
      ∃ pid, createProcess twoSegmentsImage smallIdle = .ok pid withTwoSegments :=
    Action.exists_ok_of_answers (by decide +kernel)
  have headers : (storedHeaders twoSegments).filter Segment.isLoaded =
      [upperHeader, lowerHeader] := by
    decide +kernel
  have accepted : LoadPlan.ofFile ProgramFile.reader twoSegments =
      .ok ⟨0x01000000, [upperHeader, lowerHeader].map (Segment.stored twoSegments)⟩ := by
    decide +kernel
  obtain ⟨slot, free, -, inside, outside⟩ := memory_of_program ProgramFile.reportsStored_reader
    accepted (headers ▸ by decide) (by decide +kernel) made
  rw [headers] at inside outside
  have second : smallIdle.procs.freeSlot = some 1 := by decide +kernel
  obtain rfl : 1 = slot := Option.some.inj (second.symm.trans free)
  have has : ∀ h ∈ [upperHeader, lowerHeader], ∀ i < h.memSize, ∀ b,
      h.byte? twoSegments i = some b →
        HasByte withTwoSegments 1 (UInt32.ofNat (h.vaddr + i)) b := by
    intro h hh i hi b found
    obtain ⟨c, same, has⟩ := inside h hh i hi
    exact Option.some.inj (found.symm.trans same) ▸ has
  have gap : UserMapped withTwoSegments 1 0x01000004 :=
    ⟨0b11111, by decide +kernel, rfl⟩
  exact ⟨1, has upperHeader (by decide) 0 (by decide) _ (by decide),
    has upperHeader (by decide) 3 (by decide) _ (by decide),
    has lowerHeader (by decide) 1 (by decide) _ (by decide), outside _ gap (by decide)⟩

end PocketKernel.Kernel
