import Mathlib
import PocketKernel.Proofs.Riscv.Routines

/-!
# The frame of a trap

A trap leaves the interrupted registers in a frame, and the way out takes the registers from it,
each under its own name. The stores and the loads are two lists, and the frame as kernel code reads
it is a third: they agree because a register is stored, loaded and read at the place that
`Register.index` gives it. Main statement: `registers_of_trap`.
-/
namespace PocketKernel.Riscv
variable {m m' : Machine} {top : UInt32}

/-- What a handler finds when the stack's top is `top`: the address of the frame in `a0` and in the
stack pointer, the interrupted registers in the frame, the scratch register as it was before, and
every byte as it was outside the thirty-one words. -/
structure Entered (top : UInt32) (m m' : Machine) : Prop where
  sp : m'.regs .sp = top - frameSize
  a0 : m'.regs .a0 = top - frameSize
  aligned : 16 ∣ (top - frameSize).toNat
  frame : loadFrame (top - frameSize) m' = .ok m.regs m'
  sscratch : m'.csr .sscratch = top
  csr : ∀ c ≠ .sscratch, m'.csr c = m.csr c
  base : m'.memory.ram.base = m.memory.ram.base
  limit : m'.memory.ram.limit = m.memory.ram.limit
  spares : ∀ a < UInt32.size, a < (top - frameSize).toNat ∨ (top - frameSize).toNat + 124 ≤ a →
    m'.memory.ram.byteAt a = m.memory.ram.byteAt a

/-- What the way out leaves: the registers are those of the frame, and nothing else changes. -/
structure Resumed (frame : RegisterFile) (m m' : Machine) : Prop where
  regs : m'.regs = frame
  memory : m'.memory = m.memory
  csr : m'.csr = m.csr

theorem exists_entered (stack : m.csr .sscratch = top) (aligned : 16 ∣ top.toNat)
    (room : frameSize ≤ top) (has : m.memory.ram.Has (top - frameSize).toNat 124) :
    ∃ m', run trapEntry m = .ok () m' ∧ Entered top m m' := by
  have room' : 128 ≤ top.toNat := UInt32.le_iff_toNat_le.1 room
  have below : (top - frameSize).toNat = top.toNat - 128 := UInt32.toNat_sub_of_le _ _ room
  have place : top - frameSize = UInt32.ofNat (top.toNat - 128) := by
    rw [← below, UInt32.ofNat_toNat]
  rw [below] at has
  obtain ⟨m', entered, ram, sp, a0, sscratch, csr⟩ :=
    run_trapEntry (stack.trans UInt32.ofNat_toNat.symm) room' has
  rw [UInt32.ofNat_toNat] at sscratch
  have has' : m'.memory.ram.Has (top.toNat - 128) 124 := by
    rw [ram]
    exact Ram.has_putWords.2 has
  have bounds := m.memory.ram.base_putWords (top.toNat - 128) m.regs.toWords
  refine ⟨m', entered, sp.trans place.symm, a0.trans place.symm, ?_, ?_, sscratch, csr, ?_, ?_, ?_⟩
  · rw [below]
    exact Nat.dvd_sub aligned (by decide)
  · rw [place, loadFrame_eq has']
    refine congrArg (EStateM.Result.ok · m') (funext fun reg => ?_)
    rw [ram]
    exact word_putWords_toWords m.regs (by omega) has.lt_size.le reg
  · rw [ram, bounds.1]
  · rw [ram, bounds.2]
  · intro a small outside
    rw [below] at outside
    rw [ram]
    refine Ram.byteAt_putWords_of_outside ?_ small
    rwa [RegisterFile.length_toWords]

theorem exists_resumed {addr : UInt32} (sp : m.regs .sp = addr)
    (has : m.memory.ram.Has addr.toNat 124) :
    ∃ frame m', loadFrame addr m = .ok frame m ∧ run trapExit m = .ok () m' ∧
      Resumed frame m m' := by
  obtain ⟨m', left, memory, csr, regs⟩ := run_trapExit (sp.trans UInt32.ofNat_toNat.symm) has
  have loaded := loadFrame_eq has
  rw [UInt32.ofNat_toNat] at loaded
  exact ⟨_, m', loaded, left, funext regs, memory, csr⟩

/-- From any registers and any aligned stack with room for a frame: a handler finds the interrupted
registers in the frame, and whatever it leaves in the registers and in memory, the registers are
those of the frame again when the trap is over, provided that it leaves the stack pointer as it
was. -/
theorem registers_of_trap (stack : m.csr .sscratch = top) (aligned : 16 ∣ top.toNat)
    (room : frameSize ≤ top) (has : m.memory.ram.Has (top - frameSize).toNat 124) :
    ∃ m₁, run trapEntry m = .ok () m₁ ∧ Entered top m m₁ ∧
      ∀ m₂ : Machine, m₂.regs .sp = m₁.regs .sp →
        m₂.memory.ram.Has (top - frameSize).toNat 124 →
        ∃ frame m₃, loadFrame (m₁.regs .a0) m₂ = .ok frame m₂ ∧ run trapExit m₂ = .ok () m₃ ∧
          Resumed frame m₂ m₃ ∧
          ∀ {α : Type} (handler : Action Machine α) (answer : α), handler m₁ = .ok answer m₂ →
            takeTrap handler m = .ok (answer, m₂.csr .sepc) m₃ := by
  obtain ⟨m₁, entered, found⟩ := exists_entered stack aligned room has
  refine ⟨m₁, entered, found, fun m₂ sp has₂ => ?_⟩
  obtain ⟨frame, m₃, loaded, left, resumed⟩ := exists_resumed (sp.trans found.sp) has₂
  refine ⟨frame, m₃, found.a0.symm ▸ loaded, left, resumed, fun handler answer handled => ?_⟩
  rw [← resumed.csr]
  unfold takeTrap
  rw [Action.bind_of_ok entered, Action.bind_of_ok handled, Action.bind_of_ok left]
  rfl

def armed : Machine :=
  { Machine.reset 0x80200000 0x80201000 [] with
    regs := fun r => UInt32.ofNat r.index
    csr := fun c => if c = .sscratch then 0x80201000 else 0 }

/-- A handler that answers by one word of the frame and keeps no other register. -/
theorem registers_of_trap_armed :
    armed.csr .sscratch = 0x80201000 ∧ 16 ∣ (0x80201000 : UInt32).toNat ∧
      frameSize ≤ 0x80201000 ∧ armed.memory.ram.Has (0x80201000 - frameSize).toNat 124 ∧
      ∃ m₁, run trapEntry armed = .ok () m₁ ∧ Entered 0x80201000 armed m₁ ∧
        ∃ view m₂ frame m₃, editingHandler [(10, 7)] m₁ = .ok view m₂ ∧
          m₂.regs .sp = m₁.regs .sp ∧ m₂.memory.ram.Has (0x80201000 - frameSize).toNat 124 ∧
          loadFrame (m₁.regs .a0) m₂ = .ok frame m₂ ∧ Resumed frame m₂ m₃ ∧
          takeTrap (editingHandler [(10, 7)]) armed = .ok (view, m₂.csr .sepc) m₃ := by
  have stack : armed.csr .sscratch = 0x80201000 := rfl
  have aligned : 16 ∣ (0x80201000 : UInt32).toNat := by decide
  have room : frameSize ≤ 0x80201000 := by decide
  have has : armed.memory.ram.Has (0x80201000 - frameSize).toNat 124 := by
    unfold Ram.Has
    decide
  obtain ⟨m₁, entered, found, back⟩ := registers_of_trap stack aligned room has
  have has₁ : m₁.memory.ram.Has (0x80201000 - frameSize).toNat 124 := by
    rw [Ram.Has, found.base, found.limit]
    exact has
  have word : m₁.memory.ram.Has (2149584768 + 4 * 10) 4 := has₁.part (by decide) (by decide)
  have edited := @editFrame_zipIdx m₁ 2149584768 10 [7] word
  let m₂ : Machine := { withRam m₁ (m₁.memory.ram.putWords (2149584768 + 4 * 10) [7]) with
    regs := fun r => if r = .sp then m₁.regs .sp else clobber }
  have handled : ∃ view, editingHandler [(10, 7)] m₁ = .ok view m₂ := by
    refine ⟨⟨m₁.regs .a0, armed.regs, m₁.csr .sscratch⟩, ?_⟩
    unfold editingHandler
    rw [Action.get_bind, found.a0, Action.bind_of_ok found.frame]
    exact Action.bind_of_ok edited
  obtain ⟨view, handled⟩ := handled
  have has₂ : m₂.memory.ram.Has (0x80201000 - frameSize).toNat 124 := Ram.has_putWords.2 has₁
  obtain ⟨frame, m₃, loaded, -, resumed, taken⟩ := back m₂ rfl has₂
  exact ⟨stack, aligned, room, has, m₁, entered, found, view, m₂, frame, m₃, handled, rfl, has₂,
    loaded, resumed, taken _ _ handled⟩

end PocketKernel.Riscv
