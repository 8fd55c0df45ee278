import Mathlib
import PocketKernel.Proofs.Riscv.Handlers

/-!
# From one process to another

A process that gives up the core is saved on its own stack (`Saves`), which parks it and leaves all
others as they are. The process that is switched to goes on from where it was parked: in the middle
of a call, or at the very beginning of its user code.
-/
namespace PocketKernel.Riscv
open Computer

namespace KernelImage
variable {img : KernelImage} {slot : Slot} {m : Machine} {r r' : Ram}

/-- The registers of the context lie below `sp`, and their place is the saved stack pointer. -/
structure Saves (img : KernelImage) (slot : Slot) (sp : Nat) (regs : RegisterFile) (r r' : Ram) :
    Prop where
  covers : img.Covers r'
  others : ∀ q, q ≠ .stack (stackOf slot) → q ≠ .savedSp slot → img.SameWords q r r'
  above : ∀ n, img.Holds (.stack (stackOf slot)) n → sp ≤ n → r'.word n = r.word n
  saved : r'.word (img.start (.savedSp slot)) = UInt32.ofNat (sp - 52)
  context : ∀ reg ∈ switched, contextAt r' (sp - 52) reg = regs reg

/-- The first word is where the context goes on. -/
theorem Saves.first {sp : Nat} {regs : RegisterFile} (h : img.Saves slot sp regs r r') :
    r'.word (sp - 52) = regs .ra := h.context .ra (by decide)

theorem saves_of_putWords (covers : img.Covers r) {sp : Nat} (roomy : img.Roomy (stackOf slot) sp)
    (regs : RegisterFile) :
    img.Saves slot sp regs r ((r.putWords (sp - 52) (switched.map regs)).putWords
      (img.start (.savedSp slot)) [UInt32.ofNat (sp - 52)]) := by
  have words : (switched.map regs).length = 13 := List.length_map regs
  have saved := img.holds_savedSp slot
  have frame : img.Holds (.stack (stackOf slot)) (sp - 52) := roomy.holds (Nat.zero_lt_succ 12)
  have inFrame (i : Nat) (inside : i < 13) := roomy.holds inside
  obtain ⟨aligned, low, high⟩ := roomy
  have stacked : ∀ q, q ≠ .stack (stackOf slot) →
      img.SameWords q r (r.putWords (sp - 52) (switched.map regs)) := fun q ne =>
    sameWords_putWords ne frame.1 frame.2.1 (by omega)
  have noted : ∀ q, q ≠ .savedSp slot → img.SameWords q (r.putWords (sp - 52) (switched.map regs))
      ((r.putWords (sp - 52) (switched.map regs)).putWords (img.start (.savedSp slot))
        [UInt32.ofNat (sp - 52)]) := fun q ne =>
    sameWords_putWords ne saved.1 le_rfl saved.2.2
  have fits : sp ≤ UInt32.size := high.trans ((img.inside _).2.trans img.limit.toNat_lt.le)
  refine ⟨(covers.putWords _ _).putWords _ _, fun q stack place => (stacked q stack).trans
    (noted q place), fun n holds above => ?_, ?_, fun reg mem => ?_⟩
  · rw [noted _ (by simp) n holds, Ram.word_putWords frame.1 (by omega) holds.1 holds.fits,
      if_neg (by omega)]
  · have one : 4 * [UInt32.ofNat (sp - 52)].length = 4 := rfl
    rw [Ram.word_putWords saved.1 (one ▸ saved.fits) saved.1 saved.fits, one, if_pos (by omega),
      Nat.sub_self]
    rfl
  · have index : switched.idxOf reg < (switched.map regs).length := by
      rw [List.length_map]
      exact List.idxOf_lt_length_of_mem mem
    rw [contextAt, noted _ (by simp) _ (inFrame _ (words ▸ index)),
      Ram.word_putWords_getElem frame.1 (by omega) index, List.getElem_map, List.getElem_idxOf]

theorem stackOf_injective {slot other : Slot} (ne : slot ≠ other) :
    Place.stack (stackOf slot) ≠ .stack (stackOf other) := by
  unfold stackOf
  split <;> split <;> simp_all

/-- Those that are parked stay so while another process is saved. -/
theorem Saves.parked {pending pending' : Pending} {sp : Nat} {regs : RegisterFile} {other : Slot}
    (h : img.Saves slot sp regs r r') (parked : img.Parked pending other r) (ne : other ≠ slot)
    (own : pending' other = pending other) : img.Parked pending' other r' :=
  parked.congr own (h.others _ (stackOf_injective ne) nofun)
    (h.others _ nofun fun same => ne (Place.savedSp.inj same))

/-- A process that has yet to begin is parked by what is put on its stack. -/
theorem Saves.fresh {pending : Pending} {regs : RegisterFile}
    (h : img.Saves slot (img.top slot) regs r r') (entry : regs .ra = img.userEntry)
    (process : slot ≠ 0) (none : pending slot = none) : img.Parked pending slot r' := by
  refine ⟨img.top slot, h.saved, ?_, .inl ⟨h.first.trans entry, process, none, rfl⟩⟩
  rw [stackOf_process process]
  exact img.roomy_top slot

/-- A process that yields is parked, and the registers of its handler are in the frame. -/
theorem Saves.busy {pending : Pending} {sp : Nat} {regs regs' : RegisterFile}
    (h : img.Saves slot sp regs r r') (back : regs .ra = img.yieldReturn)
    (busy : img.Busy pending slot sp regs' r)
    (preserved : ∀ reg, reg.isPreserved → regs reg = regs' reg) : img.Parked pending slot r' :=
  ⟨sp, h.saved, busy.roomy, .inr ⟨h.first.trans back, busy.congr rfl
    (fun reg kept => (h.context reg (mem_switched kept)).trans (preserved reg kept)) h.above⟩⟩

def seeded (img : KernelImage) : RegisterFile := RegisterFile.zero.set .ra img.userEntry

theorem seedStack_eq (covers : img.Covers m.memory.ram) (process : slot ≠ 0) :
    ∃ m', img.seedStack slot m = .ok () m' ∧
      img.Saves slot (img.top slot) img.seeded m.memory.ram m'.memory.ram ∧
      m'.regs = m.regs ∧ m'.csr = m.csr := by
  have roomy : img.Roomy (stackOf slot) (img.top slot) := by
    rw [stackOf_process process]
    exact img.roomy_top slot
  have saves := saves_of_putWords covers roomy img.seeded
  have frame : switched.map img.seeded = img.userEntry :: List.replicate 12 0 := rfl
  rw [frame] at saves
  obtain ⟨m₁, framed, ram₁, regs₁, csr₁⟩ := exists_editFrame
    (img.userEntry :: List.replicate 12 0) (covers.stack slot (k := 52) (by decide) (by simp))
  have noted : Machine.onMemory (Memory.inRam (Ram.storeWord (UInt32.ofNat
      (img.start (.savedSp slot))) (UInt32.ofNat (img.top slot - 52)))) m₁ =
        .ok () (withRam m₁ (m₁.memory.ram.putWords (img.start (.savedSp slot))
          [UInt32.ofNat (img.top slot - 52)])) :=
    storeWord_eq (ram₁ ▸ Ram.has_putWords.2 (covers.has le_rfl le_rfl)) _
  rw [ram₁] at noted
  generalize (m.memory.ram.putWords _ _).putWords _ _ = r at noted saves
  refine ⟨withRam m₁ r, ?_, saves, regs₁, csr₁⟩
  unfold seedStack
  rw [Action.bind_of_ok framed, noted]

theorem exists_prepareSwitch (img : KernelImage) (satp : UInt32) (next : Slot) (m : Machine) :
    ∃ m', prepareSwitch img satp next m = .ok () m' ∧ m'.memory = m.memory ∧
      m'.regs = m.regs.set .ra img.yieldReturn ∧ m'.csr .sscratch = UInt32.ofNat (img.top next) :=
  ⟨_, rfl, rfl, rfl, rfl⟩

theorem exists_enterUser (m : Machine) :
    ∃ pc m', enterUser m = .ok pc m' ∧ m'.memory = m.memory ∧ m'.csr .sscratch = m.csr .sscratch :=
  ⟨_, _, rfl, rfl, rfl⟩

/-- The process that runs is saved, and the next one goes on where it was saved: in user code if it
has yet to begin, and otherwise in the kernel, with what its handler needs. -/
theorem switchTo_eq {s : Computer} {pending : Pending} {prev next : Slot} {sp : Nat}
    (ne : next ≠ prev) (covers : img.Covers s.machine.memory.ram)
    (top : s.machine.regs .sp = UInt32.ofNat sp) (roomy : img.Roomy (stackOf prev) sp)
    (parked : img.Parked pending next s.machine.memory.ram) :
    ∃ s', switchTo img prev next s = .ok () s' ∧ s'.kernel = s.kernel ∧
      img.Saves prev sp (s.machine.regs.set .ra img.yieldReturn) s.machine.memory.ram
        s'.machine.memory.ram ∧
      s'.machine.csr .sscratch = UInt32.ofNat (img.top next) ∧
      (s'.mode = .user ∧ next ≠ 0 ∧ pending next = none ∨
        s'.mode = s.mode ∧ ∃ sp', s'.machine.regs .sp = UInt32.ofNat sp' ∧
          img.Busy pending next sp' s'.machine.regs s'.machine.memory.ram) := by
  obtain ⟨m₁, prepared, memory₁, regs₁, stack₁⟩ := exists_prepareSwitch img
    (satpOf s.kernel.procs.running.pageTable) next s.machine
  have top₁ : m₁.regs .sp = UInt32.ofNat sp := by
    rw [regs₁, ← top]
    rfl
  have saves := saves_of_putWords covers roomy m₁.regs
  rw [← memory₁] at saves
  -- The next process is parked on a stack of its own, so it is so still when the other is saved.
  have still : img.Parked pending next (switchedAway m₁ sp (img.start (.savedSp prev))) :=
    saves.parked (memory₁ ▸ parked) ne rfl
  obtain ⟨sp', saved, roomy', goes⟩ := still
  rw [← memory₁] at covers
  have low : img.Holds (.stack (stackOf prev)) (sp - 52) := roomy.holds (Nat.zero_lt_succ 12)
  have low' : img.Holds (.stack (stackOf next)) (sp' - 52) := roomy'.holds (Nat.zero_lt_succ 12)
  obtain ⟨aligned, deep, high⟩ := roomy
  obtain ⟨aligned', deep', high'⟩ := roomy'
  obtain ⟨m₂, moved, ram₂, csr₂, sp₂, regs₂⟩ := switchContext_eq top₁ (by omega)
    (covers.has low.2.1 (by omega)) (covers.has (p := .savedSp prev) le_rfl le_rfl)
    (covers.has (p := .savedSp next) le_rfl le_rfl) (covers.has low'.2.1 (by omega)) saved
  have whole : (do
      prepareSwitch img (satpOf s.kernel.procs.running.pageTable) next
      switchContext (UInt32.ofNat (img.start (.savedSp prev)))
        (UInt32.ofNat (img.start (.savedSp next))) : Action Machine UInt32) s.machine =
        .ok ((switchedAway m₁ sp (img.start (.savedSp prev))).word (sp' - 52)) m₂ := by
    rw [Action.bind_of_ok prepared, moved]
  have context (reg : Register) (preserved : reg.isPreserved) : m₂.regs reg =
      contextAt (switchedAway m₁ sp (img.start (.savedSp prev))) (sp' - 52) reg := by
    have inside := List.idxOf_lt_length_of_mem (mem_switched preserved)
    rw [contextAt, ← regs₂ _ inside, List.getElem_idxOf]
  change img.Saves prev sp m₁.regs m₁.memory.ram (switchedAway m₁ sp _) at saves
  rw [← ram₂, regs₁, memory₁] at saves
  rw [← ram₂] at goes whole context
  rcases goes with ⟨entry, process, none, -⟩ | ⟨back, busy⟩
  · obtain ⟨pc, m₃, entered, memory₃, csr₃⟩ := exists_enterUser m₂
    refine ⟨{ s with machine := m₃, mode := .user, pc }, ?_, rfl, memory₃ ▸ saves, ?_,
      .inl ⟨rfl, process, none⟩⟩
    · unfold switchTo
      rw [Action.get_bind]
      refine (Action.bind_of_ok (onMachine_of_ok whole)).trans ?_
      rw [if_pos entry, Action.bind_of_ok (onMachine_of_ok entered)]
      rfl
    · exact csr₃.trans ((congrFun csr₂ _).trans stack₁)
  · refine ⟨{ s with machine := m₂ }, ?_, rfl, saves, (congrFun csr₂ _).trans stack₁,
      .inr ⟨rfl, sp', ?_, busy.congr rfl context fun _ _ _ => rfl⟩⟩
    · unfold switchTo
      rw [Action.get_bind]
      refine (Action.bind_of_ok (onMachine_of_ok whole)).trans ?_
      rw [if_neg (back ▸ img.entry_ne.symm), if_neg (not_not.2 back)]
      rfl
    · rw [sp₂, Nat.sub_add_cancel (by omega)]

end KernelImage

end PocketKernel.Riscv
