import Mathlib
import PocketKernel.Proofs.Kernel.Creation

/-!
# Owners of page frames

A process has page frames for its root table, for the tables behind the entries of the root and for
the pages of its user code. After any run of creations each of these frames was taken from free
memory and belongs to one process in one role, and a further creation leaves the processes of before
as they are. Main statement: `frames_of_creations`.
-/
namespace PocketKernel

/-- Every index of a directory is that of an address. -/
theorem Vaddr.exists_directoryIndex {index : UInt32} (small : index.toNat < 1024) :
    ∃ va, directoryIndex va = index := by
  refine ⟨index * 4194304, ?_⟩
  simp only [← UInt32.toNat_inj, toNat_directoryIndex, UInt32.toNat_mul, UInt32.reduceToNat]
  omega

namespace Kernel
open Memory Paging TableView TableMemory

/-- What a process has a frame for: its root table, the table behind an entry of the root, or the
page of user code at an address. -/
inductive FrameRole where
  | root
  | table (index : UInt32)
  | user (va : UInt32)
  deriving DecidableEq

def OwnsFrame (k : Kernel) (slot : Slot) (frame : UInt32) : FrameRole → Prop
  | .root => (k.procs.process slot).pageTable = frame
  | .table index => index.toNat < 1024 ∧
      ∃ entry, loadWord k.memory ((k.procs.process slot).pageTable + index * 4) = .ok entry ∧
        PageEntry.valid entry = true ∧ PageEntry.frame entry = frame
  | .user va => Vaddr.aligned va = true ∧
      k.memory.translate (k.procs.process slot).pageTable va = .ok (some frame) ∧
        ∃ flags, k.memory.leafFlags (k.procs.process slot).pageTable va = .ok (some flags) ∧
          PageEntry.forUser flags = true

section Roles
variable {k : Kernel} {slot slot' : Slot} {frame index va : UInt32}

/-- A frame of a table is linked by its entry of the root and is no root itself. -/
theorem link_of_owns (h : Separate k) (used : k.procs.Used slot)
    (owns : OwnsFrame k slot frame (.table index)) :
    index.toNat < 1024 ∧
      word k.memory (k.procs.process slot).pageTable index = PageEntry.make frame 1 ∧
      frame ∉ k.roots ∧ TablePage k.roots k.memory frame := by
  obtain ⟨small, entry, found, valid, rfl⟩ := owns
  have root := root_mem_roots used
  have forest := h.memory.forest
  have held := LawfulTableMemory.loadWord_ready forest.good (forest.root _ root) small
  rw [held] at found
  cases found
  obtain ⟨a, rfl⟩ := Vaddr.exists_directoryIndex small
  obtain ⟨link, -, other⟩ := forest.tableOf_cases root valid
  exact ⟨small, link, other, .inr ⟨_, root, a, valid, rfl⟩⟩

theorem userLeaf_of_owns (h : Separate k) (used : k.procs.Used slot)
    (owns : OwnsFrame k slot frame (.user va)) :
    Vaddr.aligned va = true ∧ UserLeaf k.memory (k.procs.process slot).pageTable va frame := by
  obtain ⟨aligned, place, flags, found, user⟩ := owns
  have root := root_mem_roots used
  obtain ⟨leaf, there, rfl⟩ := leafFlags_eq_some.1 found
  obtain ⟨leaf', there', rfl⟩ := translate_eq_some.1 place
  cases there.symm.trans there'
  rw [PageEntry.forUser_flags] at user
  have start : Vaddr.offset va = 0 := by
    rw [← UInt32.toNat_inj, Vaddr.toNat_offset]
    exact Vaddr.aligned_iff.1 aligned
  refine ⟨aligned, leaf, (h.memory.leaf?_eq_some root).1 there, user, ?_⟩
  rw [start, UInt32.add_zero]

/-- Roots and tables hold tables, and pages of user code do not. -/
theorem role_cases (h : Separate k) (used : k.procs.Used slot) {role : FrameRole}
    (owns : OwnsFrame k slot frame role) :
    TablePage k.roots k.memory frame ∧ (∀ va, role ≠ .user va) ∨
      UserPage k.memory (k.procs.process slot).pageTable frame ∧ ∃ va, role = .user va := by
  cases role with
  | root =>
    cases owns
    exact .inl ⟨.inl (root_mem_roots used), nofun⟩
  | table index => exact .inl ⟨(link_of_owns h used owns).2.2.2, nofun⟩
  | user va => exact .inr ⟨⟨va, (userLeaf_of_owns h used owns).2⟩, va, rfl⟩

/-- A frame that a process has was taken from free memory. -/
theorem taken_of_owns (h : Separate k) (used : k.procs.Used slot) {role : FrameRole}
    (owns : OwnsFrame k slot frame role) : k.memory.Taken frame := by
  rcases role_cases h used owns with ⟨table, -⟩ | ⟨user, -⟩
  · exact h.memory.forest.ready_of_tablePage table
  · exact h.memory.ready _ (root_mem_roots used) frame user

/-- A frame has one owner and one role. -/
theorem eq_of_owns (h : Separate k) (used : k.procs.Used slot) (used' : k.procs.Used slot')
    {role role' : FrameRole} (owns : OwnsFrame k slot frame role)
    (owns' : OwnsFrame k slot' frame role') : slot = slot' ∧ role = role' := by
  have root := root_mem_roots used
  have root' := root_mem_roots used'
  rcases role_cases h used owns with ⟨table, notUser⟩ | ⟨user, va, rfl⟩
  · rcases role_cases h used' owns' with ⟨-, notUser'⟩ | ⟨user', -⟩
    swap
    · exact absurd table (h.memory.noTable _ root' frame user')
    cases role with
    | user va => exact absurd rfl (notUser va)
    | root =>
      cases role' with
      | user va => exact absurd rfl (notUser' va)
      | root => exact ⟨h.apart slot slot' used used' (owns.trans owns'.symm), rfl⟩
      | table index =>
        cases owns
        exact absurd root (link_of_owns h used' owns').2.2.1
    | table index =>
      obtain ⟨small, link, notRoot, -⟩ := link_of_owns h used owns
      cases role' with
      | user va => exact absurd rfl (notUser' va)
      | root =>
        cases owns'
        exact absurd root' notRoot
      | table index' =>
        obtain ⟨small', link', -, -⟩ := link_of_owns h used' owns'
        obtain ⟨tables, rfl⟩ := h.memory.forest.apart _ root _ root' _ _ small small'
          (link ▸ PageEntry.valid_link frame) (link.trans link'.symm)
        exact ⟨h.apart slot slot' used used' tables, rfl⟩
  · rcases role_cases h used' owns' with ⟨table', -⟩ | ⟨-, va', rfl⟩
    · exact absurd table' (h.memory.noTable _ root frame user)
    obtain ⟨aligned, leaf⟩ := userLeaf_of_owns h used owns
    obtain ⟨aligned', leaf'⟩ := userLeaf_of_owns h used' owns'
    obtain ⟨tables, page⟩ := h.memory.once _ root _ root' va va' frame leaf leaf'
    refine ⟨h.apart slot slot' used used' tables, congrArg FrameRole.user ?_⟩
    rw [← Vaddr.start_of_page aligned' page, Vaddr.start_of_page aligned rfl]

end Roles

/-- After any run of creations from a fresh kernel, every frame that a process has is a page between
the beginning of free memory and the first free frame. Frames that overlap are one frame, of one
process in one role. One more creation changes no translation of the processes there are, and no
byte of their user code. -/
theorem frames_of_creations {k₀ k : Kernel} (fresh : Fresh k₀)
    (aligned : Vaddr.aligned k₀.layout.freeRam = true) (run : Creations k₀ k) :
    (∀ slot frame role, k.procs.Used slot → OwnsFrame k slot frame role →
      Vaddr.aligned frame = true ∧ k₀.layout.freeRam.toNat ≤ frame.toNat ∧
        frame.toNat + 4096 ≤ k.memory.frames.next.toNat) ∧
    (∀ slot slot' frame frame' role role', k.procs.Used slot → k.procs.Used slot' →
      OwnsFrame k slot frame role → OwnsFrame k slot' frame' role' →
        (∃ a, InPage a frame ∧ InPage a frame') → slot = slot' ∧ frame = frame' ∧ role = role') ∧
    ∀ k', Creates k k' → KeepsProcesses k k' := by
  obtain ⟨separate, layout⟩ := separate_of_creations fresh aligned run
  have begins : k.memory.ram.base = k₀.layout.freeRam := separate.begins.trans (layout ▸ rfl)
  refine ⟨fun slot frame role used owns => ?_, ?_, fun k' step => step.keeps separate⟩
  · have taken := taken_of_owns separate used owns
    exact ⟨taken.aligned, begins ▸ taken.base, taken.next⟩
  · rintro slot slot' frame frame' role role' used used' owns owns' ⟨a, inside, inside'⟩
    have taken := taken_of_owns separate used owns
    have taken' := taken_of_owns separate used' owns'
    obtain rfl := eq_of_inPage taken.aligned taken'.aligned inside inside'
    obtain ⟨slots, roles⟩ := eq_of_owns separate used used' owns owns'
    exact ⟨slots, rfl, roles⟩

/-- The page of two bytes in the small layout. -/
theorem frames_of_creations_twoBytes :
    OwnsFrame smallTwoBytes 1 0x80206000 (.user userBase) ∧
      (0x80206000 : UInt32).toNat + 4096 ≤ smallTwoBytes.memory.frames.next.toNat ∧
      ¬ OwnsFrame smallTwoBytes 0 0x80206000 .root ∧ KeepsProcesses smallIdle smallTwoBytes := by
  obtain ⟨pid, made⟩ := createProcess_smallIdle
  have fresh := fresh_start smallLayout (.blank 0) 0
  have run := creations_smallIdle
  have both := run.tail (.process _ made)
  have used : smallTwoBytes.procs.Used 0 ∧ smallTwoBytes.procs.Used 1 := by
    unfold ProcessTable.Used Process.Used
    decide +kernel
  have owns : OwnsFrame smallTwoBytes 1 0x80206000 (.user userBase) :=
    ⟨rfl, by decide +kernel, 0b11111, by decide +kernel, rfl⟩
  obtain ⟨-, -, keeps⟩ := frames_of_creations fresh rfl run
  obtain ⟨inside, apart, -⟩ := frames_of_creations fresh rfl both
  refine ⟨owns, (inside 1 _ _ used.2 owns).2.2, fun root => ?_, keeps _ (.process _ made)⟩
  have same := apart 0 1 _ _ _ _ used.1 used.2 root owns ⟨0x80206000, by unfold InPage; decide⟩
  cases same.2.2

end Kernel

end PocketKernel
