import Mathlib
import PocketKernel.Proofs.Kernel.Creation

/-!
# The address space of a new process

A new process has the kernel's window and the device page mapped to themselves and the pages of its
image at `userBase`, with the rights of each, and nothing else. Its user pages are read as the image
and zeros. Main statement: `space_of_createProcess`.
-/
namespace PocketKernel

namespace Layout

structure Proper (l : Layout) : Prop where
  kernelBase : Vaddr.aligned l.kernelBase = true
  freeRam : Vaddr.aligned l.freeRam = true
  freeRamEnd : Vaddr.aligned l.freeRamEnd = true
  base_le : l.kernelBase.toNat ≤ l.freeRam.toNat
  free_le : l.freeRam.toNat ≤ l.freeRamEnd.toNat

def Window (l : Layout) (va : UInt32) : Prop :=
  l.kernelBase.toNat ≤ va.toNat ∧ va.toNat < l.freeRamEnd.toNat

instance (l : Layout) (va : UInt32) : Decidable (l.Window va) :=
  inferInstanceAs (Decidable (_ ∧ _))

end Layout

def DevicePage (va : UInt32) : Prop :=
  deviceBase.toNat ≤ va.toNat ∧ va.toNat < deviceBase.toNat + 4096

instance (va : UInt32) : Decidable (DevicePage va) := inferInstanceAs (Decidable (_ ∧ _))

def ImagePages (image : Bytes) (va : UInt32) : Prop :=
  userBase.toNat ≤ va.toNat ∧ va.toNat < userBase.toNat + Paging.pageCount image.length * 4096

structure Clear (l : Layout) (image : Bytes) : Prop where
  device : ∀ va, ImagePages image va → ¬ DevicePage va
  window : ∀ va, ImagePages image va → ¬ l.Window va
  apart : ∀ va, l.Window va → ¬ DevicePage va

namespace Kernel
open Memory Paging TableView

/-- What the tables at the root map, with the flags of each page: valid, read, write, execute and
user from the lowest bit up. -/
structure ExactSpace (l : Layout) (image : Bytes) (m : Memory) (root : UInt32) : Prop where
  window : ∀ va, l.Window va →
    m.translate root va = .ok (some va) ∧ m.leafFlags root va = .ok (some 0b01111)
  device : ∀ va, DevicePage va →
    m.translate root va = .ok (some va) ∧ m.leafFlags root va = .ok (some 0b00111)
  pages : ∀ va, ImagePages image va →
    (∃ pa, m.translate root va = .ok (some pa)) ∧ m.leafFlags root va = .ok (some 0b11111)
  nothing : ∀ va, ¬ l.Window va → ¬ DevicePage va → ¬ ImagePages image va →
    m.translate root va = .ok none ∧ m.leafFlags root va = .ok none
  bytes : ∀ buffer : Bytes, buffer.length = pageCount image.length * 4096 →
    m.readUser root userBase buffer =
      .ok (true, image ++ Bytes.zeros (buffer.length - image.length))

theorem page_eq_device_iff {va : UInt32} :
    Vaddr.page va = Vaddr.page deviceBase ↔ DevicePage va := by
  rw [← UInt32.toNat_inj, Vaddr.toNat_page, Vaddr.toNat_page, DevicePage,
    show deviceBase.toNat = 268439552 from rfl]
  omega

theorem inPages_window_iff {l : Layout} (proper : l.Proper) {va : UInt32} :
    Vaddr.InPages l.kernelBase (pageCount (l.freeRamEnd - l.kernelBase).toNat) va ↔
      l.Window va := by
  have first := Vaddr.aligned_iff.1 proper.kernelBase
  have last := Vaddr.aligned_iff.1 proper.freeRamEnd
  have := proper.base_le
  have := proper.free_le
  have := va.toNat_lt
  have := l.freeRamEnd.toNat_lt
  rw [Vaddr.InPages, Layout.Window, pageCount, UInt32.toNat_sub, UInt32.toNat_sub]
  omega

theorem inPages_image_iff {image : Bytes} (fits : userBase.toNat + image.length ≤ UInt32.size)
    {va : UInt32} :
    Vaddr.InPages userBase (pageCount image.length) va ↔ ImagePages image va := by
  have := va.toNat_lt
  rw [show UInt32.size = 4294967296 from rfl, show userBase.toNat = 16777216 from rfl] at fits
  rw [Vaddr.InPages, ImagePages, UInt32.toNat_sub, pageCount,
    show userBase.toNat = 16777216 from rfl]
  omega

/-- An image that is clear of the device page ends below it. -/
theorem fits_of_clear {l : Layout} {image : Bytes} (clear : Clear l image) :
    userBase.toNat + image.length ≤ UInt32.size := by
  have below := clear.device deviceBase
  rw [ImagePages, DevicePage, pageCount, show deviceBase.toNat = 268439552 from rfl,
    show userBase.toNat = 16777216 from rfl] at below
  rw [show UInt32.size = 4294967296 from rfl, show userBase.toNat = 16777216 from rfl]
  omega

/-- A page that is mapped to itself. -/
theorem identity_of_leaf {roots : Set UInt32} {m : Memory} {root va : UInt32} {perms : Perms}
    (forest : Forest roots m) (hr : root ∈ roots)
    (leaf : leafAt m root va = some (PageEntry.make (Vaddr.start va) perms.flags)) :
    m.translate root va = .ok (some va) ∧ m.leafFlags root va = .ok (some perms.flags) := by
  rw [Memory.translate, Memory.leafFlags, forest.translate_eq hr, forest.leafFlags_eq hr, leaf,
    Option.map_some, Option.map_some,
    PageEntry.frame_make (Vaddr.aligned_start va) perms.flags_lt, Vaddr.start_add_offset,
    PageEntry.flags_make perms.flags_lt]
  exact ⟨rfl, rfl⟩

theorem Installs.exactSpace {k k' : Kernel} {slot : Slot} {root : UInt32} {image : Bytes}
    (h : Installs slot root image k k') (proper : k.layout.Proper) (clear : Clear k.layout image) :
    ExactSpace k.layout image k'.memory root := by
  obtain ⟨m, builds, loads⟩ := h.space
  have here : root ∈ insert root k.roots := Set.mem_insert _ _
  have forest := loads.isolated.forest
  have aligned : Vaddr.aligned userBase = true := rfl
  have pieces : (Bytes.chunks 4095 image).length = pageCount image.length := Bytes.length_chunks _ _
  -- outside the pages of the image, the leaves are those of the new address space
  have leaf {va : UInt32} (outside : ¬ ImagePages image va) : leafAt k'.memory root va =
      if DevicePage va then some (PageEntry.make deviceBase Perms.kernelRw.flags)
      else if k.layout.Window va then some (PageEntry.make (Vaddr.start va) Perms.kernelRwx.flags)
      else none := by
    rw [loads.other root here va, builds.leaf]
    · simp only [page_eq_device_iff, inPages_window_iff proper]
    · rw [pieces, inPages_image_iff (fits_of_clear clear)]
      exact fun inside => outside inside.2
  refine ⟨fun va inside => ?_, fun va inside => ?_, fun va inside => ?_,
    fun va window device outside => ?_, fun buffer length => ?_⟩
  · have window := leaf fun image => clear.window va image inside
    rw [if_neg (clear.apart va inside), if_pos inside] at window
    exact identity_of_leaf forest here window
  · have device := leaf fun image => clear.device va image inside
    have start : deviceBase = Vaddr.start va :=
      (Vaddr.start_of_page rfl (page_eq_device_iff.2 inside)).symm
    rw [if_pos inside, start] at device
    exact identity_of_leaf forest here device
  · obtain ⟨flags, pa, place, -⟩ :=
      loads.byte here aligned ((inPages_image_iff (fits_of_clear clear)).2 inside)
    exact ⟨⟨pa, place⟩, flags⟩
  · have none := leaf outside
    rw [if_neg device, if_neg window] at none
    rw [Memory.translate, Memory.leafFlags, forest.translate_eq here, forest.leafFlags_eq here,
      none]
    exact ⟨rfl, rfl⟩
  · exact loads.readUser here aligned length

/-- After any run of creations from a fresh kernel, a process that is created with an image that is
clear of the window and the device page has exactly the address space of its image. -/
theorem space_of_createProcess {k₀ k k' : Kernel} {image : Bytes} {pid : UInt32}
    (fresh : Fresh k₀) (proper : k₀.layout.Proper) (run : Creations k₀ k)
    (clear : Clear k₀.layout image) (done : createProcess image k = .ok pid k') :
    ∃ slot, k.procs.freeSlot = some slot ∧ (k'.procs.process slot).pid = pid ∧
      ExactSpace k₀.layout image k'.memory (k'.procs.process slot).pageTable := by
  obtain ⟨separate, layout⟩ := separate_of_creations fresh proper.freeRam run
  obtain ⟨slot, root, free, number, installs⟩ := installs_of_createProcess separate done
  rw [← layout] at proper clear ⊢
  refine ⟨slot, free, number, ?_⟩
  rw [installs.table]
  exact installs.exactSpace proper clear

/-- An image of two bytes in the small layout. -/
theorem space_of_createProcess_twoBytes : ∃ pid slot,
    createProcess [0x61, 0x62] smallIdle = .ok pid smallTwoBytes ∧
      smallIdle.procs.freeSlot = some slot ∧
      ExactSpace smallLayout [0x61, 0x62] smallTwoBytes.memory
        (smallTwoBytes.procs.process slot).pageTable := by
  have proper : smallLayout.Proper := by constructor <;> decide
  have clear : Clear smallLayout [0x61, 0x62] := by
    constructor <;> intro va <;>
    · simp only [ImagePages, DevicePage, Layout.Window, show deviceBase.toNat = 268439552 from rfl,
        show userBase.toNat = 16777216 from rfl, smallLayout, UInt32.reduceToNat,
        show pageCount (List.length [(0x61 : UInt8), 0x62]) = 1 from rfl]
      omega
  obtain ⟨pid, made⟩ := createProcess_smallIdle
  obtain ⟨slot, free, -, space⟩ := space_of_createProcess (fresh_start smallLayout (.blank 0) 0)
    proper creations_smallIdle clear made
  exact ⟨pid, slot, made, free, space⟩

end Kernel

end PocketKernel
