import Mathlib
import PocketKernel.Proofs.Riscv.Computer

/-!
# What lies on the stacks

A process that is inside a call has its trap frame at the top of its stack, and its handler has what
it needs in registers and below that frame (`Held`). One that was switched away has a switch frame
further below, to whose place its saved stack pointer points, and the registers of its handler are
in there (`contextAt`); one that never ran has only such a frame (`Parked`). Neither depends on
anything but the registers that a call preserves and the process's own places (`Held.congr`,
`Parked.congr`).
-/
namespace PocketKernel.Riscv

/-- A system call that was begun: the registers and the place of the caller. -/
structure Call where
  regs : RegisterFile
  pc : UInt32

namespace Call

/-- What the kernel does for the call; it looks at the value of the trap only if it is none. -/
def handler (c : Call) (stval : UInt32) : Action Kernel (RegisterFile × UInt32) :=
  Kernel.handleTrap c.regs ⟨TrapCause.environmentCall, stval, c.pc⟩

end Call

def Computer.call (s : Computer) : Call := ⟨s.machine.regs, s.pc⟩

/-- The calls that are going on. -/
abbrev Pending := Slot → Option Call

namespace KernelImage
variable {img : KernelImage} {p q : Place} {slot : Slot} {r r' : Ram} {n : Nat}

def Holds (img : KernelImage) (p : Place) (n : Nat) : Prop :=
  4 ∣ n ∧ img.start p ≤ n ∧ n + 4 ≤ img.finish p

theorem Holds.fits (h : img.Holds p n) : n + 4 ≤ UInt32.size :=
  h.2.2.trans ((img.inside p).2.trans img.limit.toNat_lt.le)

structure Covers (img : KernelImage) (r : Ram) : Prop where
  base : r.base = img.base
  limit : r.limit = img.limit

theorem Covers.has (h : img.Covers r) {addr : Nat} (first : img.start p ≤ addr)
    (last : addr + n ≤ img.finish p) : r.Has addr n := by
  rw [Ram.Has, h.base, h.limit]
  exact ⟨(img.inside p).1.trans first, last.trans (img.inside p).2⟩

theorem Covers.putWords (h : img.Covers r) (addr : Nat) (words : List UInt32) :
    img.Covers (r.putWords addr words) :=
  ⟨(r.base_putWords addr words).1.trans h.base, (r.base_putWords addr words).2.trans h.limit⟩

def SameWords (img : KernelImage) (p : Place) (r r' : Ram) : Prop :=
  ∀ n, img.Holds p n → r'.word n = r.word n

theorem SameWords.trans {r'' : Ram} (h : img.SameWords p r r') (h' : img.SameWords p r' r'') :
    img.SameWords p r r'' := fun n hn => (h' n hn).trans (h n hn)

/-- What is stored in one place changes no other. -/
theorem sameWords_putWords (ne : p ≠ q) {addr : Nat} {words : List UInt32} (aligned : 4 ∣ addr)
    (first : img.start q ≤ addr) (last : addr + 4 * words.length ≤ img.finish q) :
    img.SameWords p r (r.putWords addr words) := by
  intro n hn
  have fits : addr + 4 * words.length ≤ UInt32.size :=
    last.trans ((img.inside q).2.trans img.limit.toNat_lt.le)
  have apart : ¬ (addr ≤ n ∧ n < addr + 4 * words.length) := by
    have := img.apart p q ne
    obtain ⟨-, low, high⟩ := hn
    unfold finish at high last
    omega
  rw [Ram.word_putWords aligned fits hn.1 hn.fits, if_neg apart]

/-- Code changes no word that has none of its bytes. -/
theorem word_of_computesIn {bytes : Nat → Prop} {m m' : Machine}
    (own : Computer.ComputesIn bytes m m') (holds : img.Holds p n)
    (apart : ∀ a, bytes a → ¬ (n ≤ a ∧ a < n + 4)) :
    m'.memory.ram.word n = m.memory.ram.word n := by
  have fits := holds.fits
  have place : (UInt32.ofNat n).toNat = n := UInt32.toNat_ofNat_of_lt' (by omega)
  refine Ram.wordAt_congr fun a low high => ?_
  rw [place] at low high
  exact own.others a (by omega) fun mem => apart a mem ⟨low, high⟩

/-- Code that keeps to one place changes no other. -/
theorem sameWords_of_computesIn (ne : p ≠ q) {bytes : Nat → Prop} {m m' : Machine}
    (own : Computer.ComputesIn bytes m m')
    (within : ∀ a, bytes a → img.start q ≤ a ∧ a < img.finish q) :
    img.SameWords p m.memory.ram m'.memory.ram := by
  refine fun n holds => word_of_computesIn own holds fun a mem => ?_
  have := img.apart p q ne
  obtain ⟨-, low, high⟩ := holds
  obtain ⟨low', high'⟩ := within a mem
  unfold finish at high high'
  omega

/-! ## A call that is going on -/

theorem top_eq (img : KernelImage) (slot : Slot) :
    img.top slot = img.start (.stack (.kernel slot)) + 8192 := rfl

theorem finish_stack (img : KernelImage) (slot : Slot) :
    img.finish (.stack (.kernel slot)) = img.top slot := rfl

theorem top_aligned (img : KernelImage) (slot : Slot) : 4 ∣ img.top slot :=
  (img.start_aligned _).add (show 4 ∣ 8192 by decide)

theorem top_le (img : KernelImage) (slot : Slot) : img.top slot ≤ UInt32.size :=
  (img.inside (.stack (.kernel slot))).2.trans img.limit.toNat_lt.le

def handlerSp (img : KernelImage) (slot : Slot) : Nat := img.top slot - 128 - 4 * img.words

/-- The trap frame of the call is there, and with those registers its handler has what it needs. -/
structure Held (img : KernelImage) (slot : Slot) (c : Call) (regs : RegisterFile) (r : Ram) :
    Prop where
  frame : ∀ reg : Register, r.word (img.top slot - 128 + 4 * reg.index) = c.regs reg
  kept : ∃ stval, img.kept regs (r.words (img.handlerSp slot) img.words) =
    (UInt32.ofNat (img.top slot - 128), ⟨TrapCause.environmentCall, stval, c.pc⟩)

theorem holds_of_top (img : KernelImage) (slot : Slot) {k : Nat} (aligned : 4 ∣ k) (low : 4 ≤ k)
    (high : k ≤ 8192) : img.Holds (.stack (.kernel slot)) (img.top slot - k) := by
  have top := img.top_eq slot
  have finish := img.finish_stack slot
  have := img.top_aligned slot
  refine ⟨by omega, by omega, by omega⟩

theorem Held.congr {c : Call} {regs regs' : RegisterFile} (h : img.Held slot c regs r)
    (preserved : ∀ reg, reg.isPreserved → regs' reg = regs reg)
    (same : ∀ n, img.Holds (.stack (.kernel slot)) n → img.handlerSp slot ≤ n →
      r'.word n = r.word n) : img.Held slot c regs' r' := by
  have top := img.top_eq slot
  have room := img.room
  unfold kernelStackSize at room
  have word (k : Nat) (aligned : 4 ∣ k) (low : 4 ≤ k) (high : k ≤ 128 + 4 * img.words) :
      r'.word (img.top slot - k) = r.word (img.top slot - k) :=
    same _ (img.holds_of_top slot aligned low (by omega)) (by unfold handlerSp; omega)
  refine ⟨fun reg => ?_, ?_⟩
  · have below : img.top slot - 128 + 4 * reg.index.val =
        img.top slot - (128 - 4 * reg.index.val) := by omega
    rw [below, word _ (by omega) (by omega) (by omega), ← below, h.frame]
  · rw [img.kept_congr _ preserved, Ram.words_congr fun i inside => ?_]
    · exact h.kept
    · have below : img.handlerSp slot + 4 * i =
          img.top slot - (128 + 4 * (img.words - i)) := by unfold handlerSp; omega
      rw [below, word _ (by omega) (by omega) (by omega)]

/-- The registers of a context that was saved at that address. -/
def contextAt (r : Ram) (addr : Nat) : RegisterFile :=
  fun reg => r.word (addr + 4 * switched.idxOf reg)

theorem mem_switched {reg : Register} (preserved : reg.isPreserved) : reg ∈ switched := by
  cases reg <;> first | decide | cases preserved

/-- The idle process is the first one and stays on the boot stack. -/
def stackOf (slot : Slot) : StackId := if slot.val = 0 then .boot else .kernel slot

theorem stackOf_process (process : slot ≠ 0) : stackOf slot = .kernel slot :=
  if_neg (Fin.val_ne_of_ne process)

/-- Kernel code of the process runs with that stack pointer and those registers; but for the idle
process it is the handler of a call. -/
structure Busy (img : KernelImage) (pending : Pending) (slot : Slot) (sp : Nat)
    (regs : RegisterFile) (r : Ram) : Prop where
  roomy : img.Roomy (stackOf slot) sp
  call : slot ≠ 0 →
    ∃ c, pending slot = some c ∧ img.Held slot c regs r ∧ sp = img.handlerSp slot

structure Fresh (img : KernelImage) (pending : Pending) (slot : Slot) (sp : Nat) : Prop where
  process : slot ≠ 0
  none : pending slot = none
  sp : sp = img.top slot

/-- The process does not run; it goes on in user code if it is fresh, and otherwise in the kernel
code that gave up the core. -/
def Parked (img : KernelImage) (pending : Pending) (slot : Slot) (r : Ram) : Prop :=
  ∃ sp, r.word (img.start (.savedSp slot)) = UInt32.ofNat (sp - 52) ∧
    img.Roomy (stackOf slot) sp ∧
    (r.word (sp - 52) = img.userEntry ∧ img.Fresh pending slot sp ∨
      r.word (sp - 52) = img.yieldReturn ∧ img.Busy pending slot sp (contextAt r (sp - 52)) r)

theorem Busy.congr {pending pending' : Pending} {sp : Nat} {regs regs' : RegisterFile}
    (h : img.Busy pending slot sp regs r) (own : pending' slot = pending slot)
    (preserved : ∀ reg, reg.isPreserved → regs' reg = regs reg)
    (same : ∀ n, img.Holds (.stack (stackOf slot)) n → sp ≤ n → r'.word n = r.word n) :
    img.Busy pending' slot sp regs' r' := by
  refine ⟨h.roomy, fun process => ?_⟩
  obtain ⟨c, going, held, rfl⟩ := h.call process
  rw [stackOf_process process] at same
  exact ⟨c, own.trans going, held.congr preserved same, rfl⟩

theorem holds_savedSp (img : KernelImage) (slot : Slot) :
    img.Holds (.savedSp slot) (img.start (.savedSp slot)) :=
  ⟨img.start_aligned _, le_rfl, le_rfl⟩

/-- The words of a switch frame are in the stack. -/
theorem Roomy.holds {id : StackId} {sp i : Nat} (h : img.Roomy id sp) (inside : i < 13) :
    img.Holds (.stack id) (sp - 52 + 4 * i) := by
  obtain ⟨aligned, low, high⟩ := h
  exact ⟨by omega, by omega, by omega⟩

/-- A parked process depends on its own places alone. -/
theorem Parked.congr {pending pending' : Pending} (h : img.Parked pending slot r)
    (own : pending' slot = pending slot) (same : img.SameWords (.stack (stackOf slot)) r r')
    (saved : img.SameWords (.savedSp slot) r r') : img.Parked pending' slot r' := by
  obtain ⟨sp, place, roomy, goes⟩ := h
  refine ⟨sp, (saved _ (img.holds_savedSp slot)).trans place, roomy, ?_⟩
  have first : r'.word (sp - 52) = r.word (sp - 52) := same _ (roomy.holds (Nat.zero_lt_succ 12))
  rw [first]
  rcases goes with ⟨entry, fresh⟩ | ⟨back, busy⟩
  · exact .inl ⟨entry, fresh.process, own.trans fresh.none, fresh.sp⟩
  · refine .inr ⟨back, busy.congr own (fun reg preserved => ?_) fun n holds _ => same n holds⟩
    exact same _ (roomy.holds (List.idxOf_lt_length_of_mem (mem_switched preserved)))

end KernelImage

end PocketKernel.Riscv
