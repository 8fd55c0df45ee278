import Mathlib
import PocketKernel.Proofs.Riscv.Stacks

/-!
# The pieces of a call

A trap leaves the registers of the caller on the stack of its process, and its handler knows where
they are and where the caller is (`trap_eq`). However often the process was switched away since
then, its handler finds them (`keptTrap_eq`), and the way out of the trap gives user code the
registers that the handler has made of them (`leaveTrap_eq`).
-/
namespace PocketKernel.Riscv
open Computer

namespace KernelImage
variable {img : KernelImage} {slot : Slot} {m : Machine} {c : Call} {r r' : Ram}

theorem handlerSp_eq (img : KernelImage) (slot : Slot) :
    img.handlerSp slot = img.top slot - (128 + 4 * img.words) ∧ 128 + 4 * img.words ≤ 8140 := by
  have room := img.room
  unfold handlerSp kernelStackSize at *
  omega

theorem handlerSp_lt (img : KernelImage) (slot : Slot) : img.handlerSp slot < UInt32.size := by
  have top := img.top_eq slot
  obtain ⟨place, -⟩ := img.handlerSp_eq slot
  have fits := img.top_le slot
  omega

theorem roomy_handlerSp (img : KernelImage) (slot : Slot) :
    img.Roomy (.kernel slot) (img.handlerSp slot) := by
  have := img.top_eq slot
  have := img.top_aligned slot
  obtain ⟨sp, room⟩ := img.handlerSp_eq slot
  have finish := img.finish_stack slot
  unfold Roomy
  omega

theorem roomy_top (img : KernelImage) (slot : Slot) :
    img.Roomy (.kernel slot) (img.top slot) := by
  have top := img.top_eq slot
  exact ⟨img.top_aligned slot, by omega, le_rfl⟩

theorem Covers.stack {r : Ram} (h : img.Covers r) (slot : Slot) {k n : Nat} (deep : k ≤ 8192)
    (short : n ≤ k) : r.Has (img.top slot - k) n := by
  have top := img.top_eq slot
  have finish := img.finish_stack slot
  exact h.has (p := .stack (.kernel slot)) (by omega) (by omega)

theorem holds_frame (img : KernelImage) (slot : Slot) (reg : Register) :
    img.Holds (.stack (.kernel slot)) (img.top slot - 128 + 4 * reg.index) := by
  have top := img.top_eq slot
  have place : img.top slot - 128 + 4 * reg.index.val =
      img.top slot - (128 - 4 * reg.index.val) := by omega
  rw [place]
  exact img.holds_of_top slot (by omega) (by omega) (by omega)

/-! ## Into a trap -/

/-- The frame of a trap with what the handler keeps below it. -/
theorem held_of_stored (img : KernelImage) (slot : Slot) (r : Ram) (c : Call) {stval : UInt32}
    {regs : RegisterFile} {stack : List UInt32} (length : stack.length = img.words)
    (kept : img.kept regs stack =
      (UInt32.ofNat (img.top slot - 128), ⟨TrapCause.environmentCall, stval, c.pc⟩)) :
    img.Held slot c regs
      ((r.putWords (img.top slot - 128) c.regs.toWords).putWords (img.handlerSp slot) stack) := by
  have top := img.top_eq slot
  have aligned := img.top_aligned slot
  have fits := img.top_le slot
  obtain ⟨sp, room⟩ := img.handlerSp_eq slot
  have below : img.handlerSp slot + 4 * stack.length = img.top slot - 128 := by omega
  refine ⟨fun reg => ?_, stval, ?_⟩
  · -- What the handler keeps ends where the frame begins.
    have holds := img.holds_frame slot reg
    rw [Ram.word_putWords (by omega) (by omega) holds.1 holds.fits, if_neg (by omega),
      word_putWords_toWords _ (by omega) (by omega)]
  · rw [← length, Ram.words_putWords (by omega) (by omega), kept]

theorem onMachine_of_ok {α : Type} {x : Action Machine α} {s : Computer} {a : α} {machine : Machine}
    (h : x s.machine = .ok a machine) : onMachine x s = .ok a { s with machine } :=
  Action.within_of_ok h

theorem exists_noteCall (pc stval : UInt32) (m : Machine) :
    ∃ m', noteCall pc stval m = .ok () m' ∧ m'.memory = m.memory ∧ m'.regs = m.regs ∧
      m'.csr .scause = TrapCause.environmentCall ∧ m'.csr .stval = stval ∧ m'.csr .sepc = pc ∧
      m'.csr .sscratch = m.csr .sscratch :=
  ⟨_, rfl, rfl, rfl, rfl, rfl, rfl, rfl⟩

/-- The machine after it was told the cause of a trap. -/
theorem exists_trapInfo (m : Machine) :
    ∃ m', Machine.trapInfo m = .ok (m.csr .scause, m.csr .stval, m.csr .sepc) m' ∧
      m'.memory = m.memory ∧ m'.regs = m.regs ∧ m'.csr = m.csr :=
  ⟨_, rfl, rfl, rfl, rfl⟩

theorem exists_editFrame {addr : Nat} (words : List UInt32)
    (has : m.memory.ram.Has addr (4 * words.length)) :
    ∃ m', editFrame (UInt32.ofNat addr) (placed words) m = .ok () m' ∧
      m'.memory.ram = m.memory.ram.putWords addr words ∧ m'.regs = m.regs ∧ m'.csr = m.csr :=
  ⟨_, editFrame_placed has, rfl, rfl, rfl⟩

theorem exists_setReg (r : Register) (word : UInt32) (m : Machine) :
    ∃ m', Machine.setReg r word m = .ok () m' ∧ m'.memory = m.memory ∧
      m'.regs = m.regs.set r word ∧ m'.csr = m.csr :=
  ⟨_, rfl, rfl, rfl, rfl⟩

theorem exists_writeCsr (c : Csr) (word : UInt32) (m : Machine) :
    ∃ m', Machine.writeCsr c word m = .ok () m' ∧ m'.memory = m.memory ∧ m'.regs = m.regs ∧
      m'.csr c = word ∧ ∀ other ≠ c, m'.csr other = m.csr other :=
  ⟨_, rfl, rfl, rfl, if_pos rfl, fun _ ne => if_neg ne⟩

theorem exists_keep (img : KernelImage) (addr stval sepc : UInt32) :
    ∃ regs stack stval', img.keep addr ⟨TrapCause.environmentCall, stval, sepc⟩ = (regs, stack) ∧
      stack.length = img.words ∧
      img.kept regs stack = (addr, ⟨TrapCause.environmentCall, stval', sepc⟩) := by
  obtain ⟨stval', kept⟩ := img.kept_keep addr ⟨TrapCause.environmentCall, stval, sepc⟩ rfl
  exact ⟨_, _, stval', rfl, img.length_keep _ _, kept⟩

theorem keepTrap_eq (covers : img.Covers m.memory.ram)
    (sp : m.regs .sp = UInt32.ofNat (img.top slot - 128)) {regs : RegisterFile}
    {stack : List UInt32}
    (keep : img.keep (m.regs .a0) ⟨m.csr .scause, m.csr .stval, m.csr .sepc⟩ = (regs, stack)) :
    ∃ m', img.keepTrap m = .ok () m' ∧
      m'.memory.ram = m.memory.ram.putWords (img.handlerSp slot) stack ∧
      m'.regs = regs.set .sp (UInt32.ofNat (img.handlerSp slot)) ∧ m'.csr = m.csr := by
  have top := img.top_eq slot
  obtain ⟨place, room⟩ := img.handlerSp_eq slot
  have length : stack.length = img.words := by
    rw [← img.length_keep (m.regs .a0) ⟨m.csr .scause, m.csr .stval, m.csr .sepc⟩, keep]
  have lowered : m.regs .sp + (0 - UInt32.ofNat (4 * img.words)) =
      UInt32.ofNat (img.handlerSp slot) := by
    rw [sp, ofNat_add_neg (by omega), handlerSp]
  obtain ⟨m₁, told, memory₁, regs₁, csr₁⟩ := exists_trapInfo m
  rw [← memory₁] at covers
  have room₁ : m₁.memory.ram.Has (img.handlerSp slot) (4 * stack.length) := by
    rw [place]
    exact covers.stack slot (by omega) (by omega)
  obtain ⟨m₂, stored, ram₂, regs₂, csr₂⟩ := exists_editFrame stack room₁
  refine ⟨{ m₂ with regs := regs.set .sp (UInt32.ofNat (img.handlerSp slot)) }, ?_, ?_, rfl, ?_⟩
  · unfold keepTrap
    simp only [Action.bind_of_ok told, Action.get_bind, regs₁, keep, lowered,
      Action.bind_of_ok stored]
    rfl
  · rw [← memory₁]
    exact ram₂
  · exact csr₂.trans csr₁

/-- What was in the other places is still there. -/
structure ChangesOnly (img : KernelImage) (p : Place) (r r' : Ram) : Prop where
  covers : img.Covers r'
  others : ∀ q ≠ p, img.SameWords q r r'

theorem changesOnly_stack (covers : img.Covers r) (slot : Slot) {k : Nat} {words : List UInt32}
    (aligned : 4 ∣ k) (deep : k ≤ 8192) (short : 4 * words.length ≤ k) :
    img.ChangesOnly (.stack (.kernel slot)) r (r.putWords (img.top slot - k) words) := by
  have top := img.top_eq slot
  have finish := img.finish_stack slot
  have := img.top_aligned slot
  exact ⟨covers.putWords _ _, fun q ne => sameWords_putWords ne (by omega) (by omega) (by omega)⟩

theorem ChangesOnly.trans {p : Place} {r'' : Ram} (h : img.ChangesOnly p r r')
    (h' : img.ChangesOnly p r' r'') : img.ChangesOnly p r r'' :=
  ⟨h'.covers, fun q ne => (h.others q ne).trans (h'.others q ne)⟩

/-- A trap begins a call, and the handler keeps what it needs. -/
theorem trap_eq {s : Computer} (covers : img.Covers s.machine.memory.ram)
    (armed : s.machine.csr .sscratch = UInt32.ofNat (img.top slot)) (stval : UInt32) :
    ∃ m', trap img stval s = .ok () { s with machine := m', mode := .kernel } ∧
      img.ChangesOnly (.stack (.kernel slot)) s.machine.memory.ram m'.memory.ram ∧
      img.Held slot ⟨s.machine.regs, s.pc⟩ m'.regs m'.memory.ram ∧
      m'.regs .sp = UInt32.ofNat (img.handlerSp slot) ∧
      m'.csr .sscratch = UInt32.ofNat (img.top slot) := by
  have top := img.top_eq slot
  obtain ⟨m₁, noted, memory₁, regs₁, scause₁, stval₁, sepc₁, stack₁⟩ :=
    exists_noteCall s.pc stval s.machine
  have covers₁ : img.Covers m₁.memory.ram := memory₁ ▸ covers
  obtain ⟨m₂, entered, ram₂, sp₂, a0₂, stack₂, csr₂⟩ :=
    run_trapEntry (stack₁.trans armed) (by omega) (covers₁.stack slot (by decide) (by decide))
  have covers₂ : img.Covers m₂.memory.ram := ram₂ ▸ covers₁.putWords _ _
  have cause : (⟨m₂.csr .scause, m₂.csr .stval, m₂.csr .sepc⟩ : TrapCause) =
      ⟨TrapCause.environmentCall, stval, s.pc⟩ := by
    rw [csr₂ .scause nofun, csr₂ .stval nofun, csr₂ .sepc nofun, scause₁, stval₁, sepc₁]
  obtain ⟨regs, stack, stval', keep, length, kept⟩ :=
    img.exists_keep (UInt32.ofNat (img.top slot - 128)) stval s.pc
  obtain ⟨m₃, began, ram₃, regs₃, csr₃⟩ := keepTrap_eq covers₂ sp₂ (by rw [cause, a0₂, keep])
  rw [ram₂, memory₁, regs₁] at ram₃
  have whole : (do noteCall s.pc stval; run trapEntry; img.keepTrap : Action Machine Unit)
      s.machine = .ok () m₃ := by
    rw [Action.bind_of_ok noted, Action.bind_of_ok entered, began]
  -- The stack pointer is set last, and it is none of the registers that are kept.
  have preserved : img.kept m₃.regs stack = img.kept regs stack :=
    img.kept_congr stack fun r preserved => by
      rw [regs₃]
      exact if_neg fun here => by cases here; cases preserved
  refine ⟨m₃, ?_, ?_, ram₃ ▸ img.held_of_stored slot _ ⟨_, _⟩ length (preserved.trans kept),
    by rw [regs₃]; rfl, by rw [csr₃, stack₂]⟩
  · unfold trap
    rw [Action.get_bind]
    exact Action.bind_of_ok (onMachine_of_ok whole)
  · obtain ⟨place, room⟩ := img.handlerSp_eq slot
    have framed : img.ChangesOnly (.stack (.kernel slot)) s.machine.memory.ram
        (s.machine.memory.ram.putWords (img.top slot - 128) s.machine.regs.toWords) :=
      changesOnly_stack covers slot (by decide) (by decide)
        (by rw [RegisterFile.length_toWords]; decide)
    rw [ram₃, place]
    exact framed.trans (changesOnly_stack framed.covers slot (by omega) (by omega) (by omega))

/-! ## The way back -/

/-- The handler finds the call that it was begun for. -/
theorem keptTrap_eq (covers : img.Covers m.memory.ram)
    (held : img.Held slot c m.regs m.memory.ram)
    (sp : m.regs .sp = UInt32.ofNat (img.handlerSp slot)) :
    ∃ stval, img.keptTrap m = .ok (UInt32.ofNat (img.top slot - 128), c.regs,
      ⟨TrapCause.environmentCall, stval, c.pc⟩) m := by
  obtain ⟨place, room⟩ := img.handlerSp_eq slot
  obtain ⟨stval, kept⟩ := held.kept
  have inStack : m.memory.ram.Has (img.handlerSp slot) (4 * img.words) := by
    rw [place]
    exact covers.stack slot (by omega) (by omega)
  have stack := loadWords_eq inStack
  have frame := loadFrame_eq (covers.stack slot (k := 128) (n := 124) (by decide) (by decide))
  rw [show (fun r : Register => m.memory.ram.word (img.top slot - 128 + 4 * r.index)) = c.regs from
    funext held.frame] at frame
  refine ⟨stval, ?_⟩
  unfold keptTrap
  rw [Action.get_bind, sp, Action.bind_of_ok stack, kept]
  dsimp only
  rw [Action.bind_of_ok frame]
  rfl

/-- The handler goes back to user code, which has the registers that the handler gives it. -/
theorem leaveTrap_eq (covers : img.Covers m.memory.ram)
    (sp : m.regs .sp = UInt32.ofNat (img.handlerSp slot)) (frame : RegisterFile) (pc : UInt32) :
    ∃ m', img.leaveTrap (UInt32.ofNat (img.top slot - 128)) frame pc m = .ok pc m' ∧
      img.ChangesOnly (.stack (.kernel slot)) m.memory.ram m'.memory.ram ∧ m'.regs = frame ∧
      m'.csr .sscratch = m.csr .sscratch := by
  have length : 4 * frame.toWords.length = 124 := by rw [RegisterFile.length_toWords]
  have framed : img.ChangesOnly (.stack (.kernel slot)) m.memory.ram
      (m.memory.ram.putWords (img.top slot - 128) frame.toWords) :=
    changesOnly_stack covers slot (by decide) (by decide) (by rw [length]; decide)
  obtain ⟨m₁, stored, ram₁, regs₁, csr₁⟩ := exists_editFrame frame.toWords
    (covers.stack slot (k := 128) (by decide) (by rw [length]; decide))
  rw [← ram₁] at framed
  have raised : m₁.regs .sp + UInt32.ofNat (4 * img.words) = UInt32.ofNat (img.top slot - 128) := by
    have top := img.top_eq slot
    obtain ⟨place, room⟩ := img.handlerSp_eq slot
    have above : img.handlerSp slot + 4 * img.words = img.top slot - 128 := by omega
    rw [regs₁, sp, ← UInt32.ofNat_add, above]
  obtain ⟨m₂, lifted, memory₂, regs₂, csr₂⟩ :=
    exists_setReg .sp (UInt32.ofNat (img.top slot - 128)) m₁
  obtain ⟨m₃, aimed, memory₃, regs₃, sepc₃, csr₃⟩ := exists_writeCsr .sepc pc m₂
  have memory : m₃.memory = m₁.memory := memory₃.trans memory₂
  have sp₃ : m₃.regs .sp = UInt32.ofNat (img.top slot - 128) := by
    rw [regs₃, regs₂]
    rfl
  obtain ⟨m₄, left, memory₄, csr₄, regs₄⟩ := run_trapExit sp₃ <| by
    rw [memory]
    exact framed.covers.stack slot (by decide) (by decide)
  have returned : returnAddress m₄ = .ok pc m₄ := by
    rw [← sepc₃, ← csr₄]
    rfl
  refine ⟨m₄, ?_, ?_, funext fun r => ?_, ?_⟩
  · unfold leaveTrap
    rw [Action.bind_of_ok stored, Action.get_bind, raised, Action.bind_of_ok lifted,
      Action.bind_of_ok aimed, Action.bind_of_ok left, returned]
  · rw [memory₄, memory]
    exact framed
  · have top := img.top_eq slot
    have aligned := img.top_aligned slot
    have fits := img.top_le slot
    rw [regs₄, memory, ram₁, word_putWords_toWords _ (by omega) (by omega)]
  · rw [csr₄, csr₃ .sscratch nofun, csr₂, csr₁]

end KernelImage

end PocketKernel.Riscv
