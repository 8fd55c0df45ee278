import Mathlib
import PocketKernel.Proofs.Kernel.AddressSpace
import PocketKernel.Proofs.Memory.Budget

/-!
# The budget of a process

A process takes a frame for its root, one for the table of each region of 4 MiB that has a page of
it, and one for each page of its image. It is created exactly when as many frames remain. Main
statement: `budget_of_createProcess`.
-/
namespace PocketKernel

namespace Layout

noncomputable def regions (l : Layout) (image : Bytes) : Finset Nat :=
  regionsOf fun va => l.Window va ∨ DevicePage va ∨ ImagePages image va

/-- The frames that a process takes: its root, its tables and the pages of its image. -/
noncomputable def budget (l : Layout) (image : Bytes) : Nat :=
  1 + (l.regions image).card + Paging.pageCount image.length

end Layout

namespace Kernel
open Memory Paging TableView
variable {k k' : Kernel} {slot : Slot} {image : Bytes} {root : UInt32} {m m' : Memory} {e : Fault}

structure Stocked (k : Kernel) : Prop where
  frames : k.memory.frames = ⟨k.layout.freeRam, k.layout.freeRamEnd⟩
  base : k.memory.ram.base.toNat ≤ k.layout.freeRam.toNat
  limit : k.layout.freeRamEnd.toNat ≤ k.memory.ram.limit.toNat

def buildFor (l : Layout) : Action Memory UInt32 :=
  buildSpace l.kernelBase (l.freeRamEnd - l.kernelBase) deviceBase

theorem newSpace_eq (k : Kernel) : newSpace k = onMemory (buildFor k.layout) k := by
  unfold newSpace
  rw [Action.get_bind]
  rfl

theorem isolated_of_newSpace (good : k.memory.InOrder)
    (built : newSpace k = .ok root { k with memory := m }) : Isolated {root} m := by
  rw [newSpace_eq] at built
  obtain ⟨m', space, same⟩ := onMemory_eq_ok.1 built
  obtain rfl : m = m' := congrArg Kernel.memory same
  have isolated := (Builds.of_done (isolated_empty good) space).isolated
  rwa [insert_empty_eq] at isolated

/-- Creations keep the free frames in order. -/
theorem Creates.inOrder (step : Creates k k') (good : k.memory.InOrder) :
    k'.memory.InOrder ∧ k'.layout = k.layout := by
  cases step with
  | idle done =>
    obtain ⟨slot, root, m, log, -, -, built, rfl⟩ := spawnIdle_eq_ok done
    exact ⟨(isolated_of_newSpace good built).forest.good, rfl⟩
  | process image done =>
    obtain ⟨slot, root, m₁, m₂, log, -, built, loaded, -, rfl⟩ := createProcess_eq_ok done
    have loads := Loads.of_done (isolated_of_newSpace good built) rfl loaded
    exact ⟨loads.isolated.forest.good, rfl⟩

theorem inOrder_of_creations {k₀ : Kernel} (stocked : Stocked k₀)
    (aligned : Vaddr.aligned k₀.layout.freeRam = true) (run : Creations k₀ k) :
    k.memory.InOrder ∧ k.layout = k₀.layout := by
  induction run with
  | refl =>
    refine ⟨⟨?_, ?_, ?_⟩, rfl⟩
    · rw [stocked.frames]
      exact Vaddr.aligned_iff.1 aligned
    · rw [stocked.frames]
      exact stocked.base
    · rw [stocked.frames]
      exact stocked.limit
  | tail _ step ih =>
    obtain ⟨good, same⟩ := ih
    obtain ⟨good', same'⟩ := step.inOrder good
    exact ⟨good', same'.trans same⟩

/-! ## The parts of a creation -/

theorem createProcess_of_build_error (free : k.procs.freeSlot = some slot)
    (stopped : buildFor k.layout k.memory = .error e m) :
    createProcess image k = .error e { k with memory := m } := by
  have space : newSpace k = .error e { k with memory := m } := by
    rw [newSpace_eq]
    exact Action.within_of_error stopped
  unfold createProcess
  rw [Action.bind_of_ok (freeSlot_eq_ok.2 ⟨free, rfl⟩)]
  exact Action.bind_of_error space

/-- With an address space a creation comes to the image. -/
theorem createProcess_of_built (free : k.procs.freeSlot = some slot)
    (built : buildFor k.layout k.memory = .ok root m) :
    createProcess image k = (do
      onMemory (loadImage root userBase image .userRwx)
      let pid := (← get).procs.nextPid
      modify fun k => { k with
        procs := { k.procs.install slot pid root (some (Core.seedPlace slot)) with
          nextPid := pid + 1 }
        core := k.core.seed slot }
      report (.processCreated pid slot.val image.length)
      pure pid : Action Kernel UInt32) { k with memory := m } := by
  have space : newSpace k = .ok root { k with memory := m } := by
    rw [newSpace_eq]
    exact Action.within_of_ok built
  unfold createProcess
  rw [Action.bind_of_ok (freeSlot_eq_ok.2 ⟨free, rfl⟩), Action.bind_of_ok space]

theorem createProcess_of_load_error (free : k.procs.freeSlot = some slot)
    (built : buildFor k.layout k.memory = .ok root m)
    (stopped : loadImage root userBase image .userRwx m = .error e m') :
    createProcess image k = .error e { k with memory := m' } := by
  rw [createProcess_of_built free built]
  exact Action.bind_of_error (Action.within_of_error stopped)

theorem createProcess_of_loaded (free : k.procs.freeSlot = some slot)
    (built : buildFor k.layout k.memory = .ok root m)
    (loaded : loadImage root userBase image .userRwx m = .ok () m') :
    ∃ pid k', createProcess image k = .ok pid k' ∧ k'.memory = m' := by
  have filled : onMemory (loadImage root userBase image .userRwx) { k with memory := m } =
      .ok () { k with memory := m' } := Action.within_of_ok loaded
  rw [createProcess_of_built free built, Action.bind_of_ok filled]
  exact ⟨_, _, rfl, rfl⟩

/-! ## The budget -/

/-- The pages of a process are those of its address space and of its image. -/
theorem regions_eq {l : Layout} (proper : l.Proper)
    (fits : userBase.toNat + image.length ≤ UInt32.size) :
    l.regions image = spaceRegions l.kernelBase (l.freeRamEnd - l.kernelBase) deviceBase ∪
      regionsOf (Vaddr.InPages userBase (pageCount image.length)) := by
  rw [spaceRegions, ← regionsOf_or]
  refine regionsOf_congr fun va => ?_
  rw [inPages_window_iff proper, page_eq_device_iff, inPages_image_iff fits, or_assoc]

theorem createProcess_cases (good : k.memory.InOrder) (proper : k.layout.Proper)
    (free : k.procs.freeSlot = some slot) (fits : userBase.toNat + image.length ≤ UInt32.size) :
    (∃ pid k', createProcess image k = .ok pid k' ∧
      k'.memory.frames.remaining + k.layout.budget image = k.memory.frames.remaining) ∨
    ∃ e m, createProcess image k = .error e { k with memory := m } ∧
      Starved k.layout.kernelBase (k.layout.freeRamEnd - k.layout.kernelBase) e ∧
      k.memory.frames.remaining < k.layout.budget image := by
  have total := card_union_sdiff
    (spaceRegions k.layout.kernelBase (k.layout.freeRamEnd - k.layout.kernelBase) deviceBase)
    (regionsOf (Vaddr.InPages userBase (pageCount image.length))) ∅
  rw [Finset.sdiff_empty, Finset.sdiff_empty, Finset.empty_union, ← regions_eq proper fits] at total
  have small : pageCount image.length * 4096 ≤ UInt32.size := by
    rw [show userBase.toNat = 16777216 from rfl, show UInt32.size = 4294967296 from rfl] at fits
    rw [pageCount, show UInt32.size = 4294967296 from rfl]
    omega
  unfold Layout.budget
  have device : Vaddr.aligned deviceBase = true := rfl
  rcases buildSpace_paid good proper.kernelBase device with
    ⟨root, m₁, built, isolated, tables, first⟩ | ⟨e, m, stopped, fault, short⟩
  swap
  · exact .inr ⟨e, m, createProcess_of_build_error free stopped, fault, by omega⟩
  have load : Costs root _ _ (Starved k.layout.kernelBase _)
      (loadImage root userBase image .userRwx) :=
    costs_loadImage _ (k.layout.freeRamEnd - k.layout.kernelBase) .userRwx rfl small
  rcases load m₁ isolated with ⟨⟨⟩, m₂, loaded, paid⟩ | ⟨e, m₂, stopped, fault, short⟩
  · obtain ⟨pid, k', done, rfl⟩ := createProcess_of_loaded free built loaded
    have second := paid.frames
    rw [price, tables] at second
    exact .inl ⟨pid, k', done, by omega⟩
  · rw [price, tables] at short
    exact .inr ⟨e, m₂, createProcess_of_load_error free built stopped, fault, by omega⟩

/-- After any run of creations, a process with an image is created exactly when its budget of frames
remains, and takes it. Otherwise the creation ends in a fault that names what ran out, and has
changed nothing but memory: neither the processes nor the next process number. -/
theorem budget_of_createProcess {k₀ : Kernel} (stocked : Stocked k₀) (proper : k₀.layout.Proper)
    (run : Creations k₀ k) (free : k.procs.freeSlot = some slot)
    (fits : userBase.toNat + image.length ≤ UInt32.size) :
    ((∃ pid k', createProcess image k = .ok pid k') ↔
      k₀.layout.budget image ≤ k.memory.frames.remaining) ∧
    (∀ pid k', createProcess image k = .ok pid k' →
      k'.memory.frames.remaining + k₀.layout.budget image = k.memory.frames.remaining) ∧
    ∀ e k', createProcess image k = .error e k' →
      (e.message = "out of memory" ∨ ∃ place, e.message = place ++ "out of page-table frames") ∧
      ∃ m, k' = { k with memory := m } := by
  obtain ⟨good, layout⟩ := inOrder_of_creations stocked proper.freeRam run
  rw [← layout] at proper ⊢
  rcases createProcess_cases good proper free fits with
    ⟨pid, k', done, paid⟩ | ⟨e, m, stopped, fault, short⟩
  · refine ⟨⟨fun _ => by omega, fun _ => ⟨pid, k', done⟩⟩, fun _ _ done' => ?_,
      fun _ _ stopped => ?_⟩
    · obtain ⟨-, rfl⟩ := Action.eq_of_ok done done'
      exact paid
    · exact absurd (done.symm.trans stopped) nofun
  · refine ⟨⟨fun ⟨_, _, done⟩ => ?_, fun enough => absurd enough (by omega)⟩,
      fun _ _ done => ?_, fun _ _ stopped' => ?_⟩
    · exact absurd (stopped.symm.trans done) nofun
    · exact absurd (stopped.symm.trans done) nofun
    · obtain ⟨rfl, rfl⟩ := EStateM.Result.error.inj (stopped.symm.trans stopped')
      exact ⟨fault.message, m, rfl⟩

/-- The window, the device page and the image lie in a region each. -/
theorem budget_twoBytes : smallLayout.budget [0x61, 0x62] = 5 := by
  have regions : smallLayout.regions [0x61, 0x62] = {4, 64, 512} := by
    ext r
    simp only [Layout.regions, mem_regionsOf, Vaddr.region, Layout.Window, DevicePage, ImagePages,
      smallLayout, Finset.mem_insert, Finset.mem_singleton, UInt32.reduceToNat,
      show deviceBase.toNat = 268439552 from rfl, show userBase.toNat = 16777216 from rfl,
      show pageCount (List.length [(0x61 : UInt8), 0x62]) = 1 from rfl]
    constructor
    · rintro ⟨va, inside, rfl⟩
      omega
    · rintro (rfl | rfl | rfl)
      · exact ⟨0x01000000, by decide, rfl⟩
      · exact ⟨0x10001000, by decide, rfl⟩
      · exact ⟨0x80200000, by decide, rfl⟩
  rw [Layout.budget, regions]
  rfl

/-- The small layout has frames for one process beside the idle process. -/
theorem budget_of_createProcess_small :
    (∃ pid k', createProcess [0x61, 0x62] smallIdle = .ok pid k' ∧
      k'.memory.frames.remaining + 5 = smallIdle.memory.frames.remaining) ∧
    ∃ e m, createProcess [0x61, 0x62] smallTwoBytes = .error e { smallTwoBytes with memory := m } ∧
      (e.message = "out of memory" ∨
        ∃ place, e.message = place ++ "out of page-table frames") := by
  have stocked : Stocked (start smallLayout (.blank 0) 0) := ⟨rfl, le_rfl, le_rfl⟩
  have proper : smallLayout.Proper := by constructor <;> decide
  have fits : userBase.toNat + List.length [(0x61 : UInt8), 0x62] ≤ UInt32.size := by decide
  constructor
  · have free : smallIdle.procs.freeSlot = some 1 := by decide +kernel
    obtain ⟨created, taken, -⟩ :=
      budget_of_createProcess stocked proper creations_smallIdle free fits
    have enough : 5 ≤ smallIdle.memory.frames.remaining := by decide +kernel
    obtain ⟨pid, k', done⟩ := created.2 (budget_twoBytes ▸ enough)
    exact ⟨pid, k', done, budget_twoBytes ▸ taken pid k' done⟩
  · obtain ⟨_, made⟩ := createProcess_smallIdle
    have run := creations_smallIdle.tail (.process _ made)
    have free : smallTwoBytes.procs.freeSlot = some 2 := by decide +kernel
    obtain ⟨created, -, stops⟩ := budget_of_createProcess stocked proper run free fits
    have short : smallTwoBytes.memory.frames.remaining < 5 := by decide +kernel
    rcases ran : createProcess [0x61, 0x62] smallTwoBytes with ⟨pid, k'⟩ | ⟨e, k'⟩
    · have enough := created.1 ⟨pid, k', ran⟩
      rw [show (start smallLayout (.blank 0) 0).layout = smallLayout from rfl, budget_twoBytes]
        at enough
      omega
    · obtain ⟨message, m, rfl⟩ := stops e k' ran
      exact ⟨e, m, rfl, message⟩

end Kernel
end PocketKernel
