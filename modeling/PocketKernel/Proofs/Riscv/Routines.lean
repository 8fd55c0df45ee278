import Mathlib
import PocketKernel.Proofs.Files.Sectors
import PocketKernel.Proofs.Memory.Words
import PocketKernel.Riscv.Routine

/-!
# What the routines do

A sequence of stores puts words one after the other, and a sequence of loads takes them from there.
From these two facts: what the way into a trap, the way out of it and the switch of contexts leave
in the registers and in memory.
-/
namespace PocketKernel.Riscv
variable {m : Machine}

/-- An address below another one, as the routines compute it. -/
theorem ofNat_add_neg {n k : Nat} (h : k ≤ n) :
    UInt32.ofNat n + (0 - UInt32.ofNat k) = UInt32.ofNat (n - k) := by
  obtain ⟨d, rfl⟩ := Nat.exists_eq_add_of_le h
  rw [Nat.add_sub_cancel_left, UInt32.ofNat_add, UInt32.zero_sub, ← UInt32.sub_eq_add_neg,
    UInt32.add_comm, UInt32.add_sub_cancel]

theorem run_append (is js : List Instr) (m : Machine) :
    run (is ++ js) m = (run is >>= fun _ => run js) m := by
  induction is generalizing m with
  | nil => rfl
  | cons i rest ih =>
    cases ran : exec i m with
    | ok a m' =>
      refine (Action.bind_of_ok ran).trans ((ih m').trans ?_)
      cases rested : run rest m' with
      | ok b m'' =>
        have whole : run (i :: rest) m = .ok b m'' := (Action.bind_of_ok ran).trans rested
        rw [Action.bind_of_ok rested, Action.bind_of_ok whole]
      | error e m'' =>
        have whole : run (i :: rest) m = .error e m'' := (Action.bind_of_ok ran).trans rested
        rw [Action.bind_of_error rested, Action.bind_of_error whole]
    | error e m' =>
      have whole : run (i :: rest) m = .error e m' := Action.bind_of_error ran
      rw [Action.bind_of_error whole]
      exact Action.bind_of_error ran

theorem run_append_of_ok {is js : List Instr} {m m' : Machine} (first : run is m = .ok () m') :
    run (is ++ js) m = run js m' := by
  rw [run_append, Action.bind_of_ok first]

theorem run_cons_of_ok {i : Instr} {rest : List Instr} {m m' : Machine}
    (first : exec i m = .ok () m') : run (i :: rest) m = run rest m' :=
  Action.bind_of_ok first

def withRam (m : Machine) (r : Ram) : Machine := { m with memory := { m.memory with ram := r } }

theorem storeWord_eq {addr : Nat} (has : m.memory.ram.Has addr 4) (word : UInt32) :
    Machine.onMemory (Memory.inRam (Ram.storeWord (UInt32.ofNat addr) word)) m =
      .ok () (withRam m (m.memory.ram.putWords addr [word])) := by
  have inRam : Memory.inRam (Ram.storeWord (UInt32.ofNat addr) word) m.memory =
      .ok () { m.memory with ram := m.memory.ram.putWords addr [word] } :=
    Action.within_of_ok (Ram.storeWord_of_has has word)
  exact Action.within_of_ok inRam

theorem exec_store {src base : Register} {offset word : UInt32} {addr : Nat}
    (place : m.regs base + offset = UInt32.ofNat addr) (value : m.regs src = word)
    (has : m.memory.ram.Has addr 4) :
    exec (.store src offset base) m = .ok () (withRam m (m.memory.ram.putWords addr [word])) := by
  change Machine.onMemory (Memory.inRam (Ram.storeWord (m.regs base + offset) (m.regs src))) m = _
  rw [place, value]
  exact storeWord_eq has word

theorem exec_load {dst base : Register} {offset : UInt32} {addr : Nat}
    (place : m.regs base + offset = UInt32.ofNat addr) (has : m.memory.ram.Has addr 4) :
    exec (.load dst offset base) m =
      .ok () { m with regs := m.regs.set dst (m.memory.ram.word addr) } := by
  have loaded : Action.ask (fun m : Machine => m.memory.ram.loadWord (m.regs base + offset)) m =
      .ok (m.memory.ram.word addr) m := by
    refine Action.ask_of_ok ?_
    rw [place]
    exact Ram.loadWord_of_has has
  exact Action.bind_of_ok loaded

def withCsr (m : Machine) (c : Csr) (word : UInt32) : Machine :=
  { m with
    csr := fun other => if other = c then word else m.csr other
    written := if c ∈ m.written then m.written else m.written ++ [c] }

theorem exec_swapCsr (m : Machine) (r : Register) (c : Csr) :
    exec (.swapCsr r c) m =
      .ok () { withCsr m c (m.regs r) with regs := m.regs.set r (m.csr c) } := rfl

theorem exec_readCsr (m : Machine) (dst : Register) (c : Csr) :
    exec (.readCsr dst c) m = .ok () { m with regs := m.regs.set dst (m.csr c) } := rfl

theorem exec_writeCsr (m : Machine) (c : Csr) (src : Register) :
    exec (.writeCsr c src) m = .ok () (withCsr m c (m.regs src)) := rfl

theorem exec_addImm (m : Machine) (dst src : Register) (word : UInt32) :
    exec (.addImm dst src word) m =
      .ok () { m with regs := m.regs.set dst (m.regs src + word) } := rfl

theorem exec_move (m : Machine) (dst src : Register) :
    exec (.move dst src) m = .ok () { m with regs := m.regs.set dst (m.regs src) } := rfl

/-- The instructions that store or load registers at consecutive words, the first of them being
that with the number `k`. -/
def atStackFrom (op : Register → UInt32 → Register → Instr) (k : Nat) (regs : List Register) :
    List Instr :=
  (regs.zipIdx k).map fun (r, i) => op r (UInt32.ofNat (4 * i)) .sp

theorem atStack_eq (op : Register → UInt32 → Register → Instr) (regs : List Register) :
    atStack op regs = atStackFrom op 0 regs := rfl

theorem run_stores (regs : List Register) {sp : Nat} (top : m.regs .sp = UInt32.ofNat sp) (k : Nat)
    (has : m.memory.ram.Has (sp + 4 * k) (4 * regs.length)) :
    run (atStackFrom .store k regs) m =
      .ok () (withRam m (m.memory.ram.putWords (sp + 4 * k) (regs.map m.regs))) := by
  induction regs generalizing m k with
  | nil => rfl
  | cons r rest ih =>
    rw [List.length_cons] at has
    have place : m.regs .sp + UInt32.ofNat (4 * k) = UInt32.ofNat (sp + 4 * k) := by
      rw [top, UInt32.ofNat_add]
    have stored := exec_store place (rfl : m.regs r = _) (has.part le_rfl (by omega))
    -- A store changes no register, so the later ones store what the registers held at first.
    have later := ih (m := withRam m (m.memory.ram.putWords (sp + 4 * k) [m.regs r])) top (k + 1)
      (Ram.has_putWords.2 (has.part (by omega) (by omega)))
    exact (run_cons_of_ok stored).trans later

theorem run_loads (regs : List Register) {sp : Nat} (top : m.regs .sp = UInt32.ofNat sp) (k : Nat)
    (has : m.memory.ram.Has (sp + 4 * k) (4 * regs.length)) (apart : Register.sp ∉ regs)
    (once : regs.Nodup) :
    ∃ loaded : RegisterFile, run (atStackFrom .load k regs) m = .ok () { m with regs := loaded } ∧
      (∀ (i : Nat) (h : i < regs.length),
        loaded regs[i] = m.memory.ram.word (sp + 4 * (k + i))) ∧
      ∀ r ∉ regs, loaded r = m.regs r := by
  induction regs generalizing m k with
  | nil => exact ⟨m.regs, rfl, nofun, fun _ _ => rfl⟩
  | cons r rest ih =>
    rw [List.length_cons] at has
    obtain ⟨notSp, apart⟩ := not_or.1 (List.mem_cons.not.1 apart)
    obtain ⟨notRest, once⟩ := List.nodup_cons.1 once
    have place : m.regs .sp + UInt32.ofNat (4 * k) = UInt32.ofNat (sp + 4 * k) := by
      rw [top, UInt32.ofNat_add]
    have first : exec (.load r (UInt32.ofNat (4 * k)) .sp) m =
        .ok () { m with regs := m.regs.set r (m.memory.ram.word (sp + 4 * k)) } :=
      exec_load place (has.part le_rfl (by omega))
    let m₁ : Machine := { m with regs := m.regs.set r (m.memory.ram.word (sp + 4 * k)) }
    have top₁ : m₁.regs .sp = UInt32.ofNat sp := (if_neg notSp).trans top
    obtain ⟨loaded, later, words, others⟩ :=
      ih (m := m₁) top₁ (k + 1) (has.part (by omega) (by omega)) apart once
    refine ⟨loaded, (run_cons_of_ok first).trans later, ?_, ?_⟩
    · intro i h
      cases i with
      | zero =>
        rw [List.getElem_cons_zero, others r notRest]
        exact if_pos rfl
      | succ i =>
        rw [List.getElem_cons_succ, words i (Nat.lt_of_succ_lt_succ h)]
        congr 1
        omega
    · intro other ne
      obtain ⟨notFirst, notLater⟩ := not_or.1 (List.mem_cons.not.1 ne)
      rw [others other notLater]
      exact if_neg notFirst

/-! ## The way into a trap and out of it -/

theorem sp_not_mem_framed : Register.sp ∉ framed := by decide

theorem length_framed : framed.length = 30 := by decide

theorem toWords_eq (f : RegisterFile) : f.toWords = framed.map f ++ [f .sp] := rfl

/-- The two stack pointers are exchanged, and room is made. -/
theorem run_exchange (m : Machine) {sp : Nat}
    (below : m.csr .sscratch + (0 - frameSize) = UInt32.ofNat sp) :
    ∃ m', run [.swapCsr .sp .sscratch, .addImm .sp .sp (0 - frameSize)] m = .ok () m' ∧
      m'.memory = m.memory ∧ m'.regs .sp = UInt32.ofNat sp ∧
      (∀ r ≠ .sp, m'.regs r = m.regs r) ∧ m'.csr .sscratch = m.regs .sp ∧
      ∀ c ≠ .sscratch, m'.csr c = m.csr c := by
  let m₁ : Machine :=
    { withCsr m .sscratch (m.regs .sp) with regs := m.regs.set .sp (m.csr .sscratch) }
  have swapped : exec (.swapCsr .sp .sscratch) m = .ok () m₁ := exec_swapCsr ..
  refine ⟨_, (run_cons_of_ok swapped).trans (run_cons_of_ok (exec_addImm ..)), rfl, below,
    fun r ne => (if_neg ne).trans (if_neg ne), rfl, fun c ne => if_neg ne⟩

/-- The interrupted stack pointer is the last word of the frame. -/
theorem run_complete {m : Machine} {sp : Nat} (top : m.regs .sp = UInt32.ofNat sp)
    (has : m.memory.ram.Has (sp + 120) 4) :
    ∃ m', run [.readCsr .a0 .sscratch, .store .a0 frameSpOffset .sp, .addImm .a0 .sp frameSize,
        .writeCsr .sscratch .a0, .move .a0 .sp] m = .ok () m' ∧
      m'.memory.ram = m.memory.ram.putWords (sp + 120) [m.csr .sscratch] ∧
      m'.regs .sp = UInt32.ofNat sp ∧ m'.regs .a0 = UInt32.ofNat sp ∧
      m'.csr .sscratch = UInt32.ofNat (sp + 128) ∧ ∀ c ≠ .sscratch, m'.csr c = m.csr c := by
  let m₁ : Machine := { m with regs := m.regs.set .a0 (m.csr .sscratch) }
  have place : m₁.regs .sp + frameSpOffset = UInt32.ofNat (sp + 120) := by
    rw [UInt32.ofNat_add, ← top]
    rfl
  have stored : exec (.store .a0 frameSpOffset .sp) m₁ =
      .ok () (withRam m₁ (m.memory.ram.putWords (sp + 120) [m.csr .sscratch])) :=
    exec_store place rfl has
  generalize m.memory.ram.putWords (sp + 120) [m.csr .sscratch] = r at stored ⊢
  have armed : m.regs .sp + frameSize = UInt32.ofNat (sp + 128) := by
    rw [UInt32.ofNat_add, ← top]
    rfl
  refine ⟨_, (run_cons_of_ok (exec_readCsr ..)).trans ((run_cons_of_ok stored).trans
    ((run_cons_of_ok (exec_addImm ..)).trans ((run_cons_of_ok (exec_writeCsr ..)).trans
      (run_cons_of_ok (exec_move ..))))), rfl, top, top, armed, fun c ne => if_neg ne⟩

/-- The registers lie in a frame at the top of the stack, whose address the handler is given; the
next trap will find the same stack. -/
theorem run_trapEntry {top : Nat} (stack : m.csr .sscratch = UInt32.ofNat top) (room : 128 ≤ top)
    (has : m.memory.ram.Has (top - 128) 124) :
    ∃ m', run trapEntry m = .ok () m' ∧
      m'.memory.ram = m.memory.ram.putWords (top - 128) m.regs.toWords ∧
      m'.regs .sp = UInt32.ofNat (top - 128) ∧ m'.regs .a0 = UInt32.ofNat (top - 128) ∧
      m'.csr .sscratch = UInt32.ofNat top ∧ ∀ c ≠ .sscratch, m'.csr c = m.csr c := by
  have below : m.csr .sscratch + (0 - frameSize) = UInt32.ofNat (top - 128) := by
    rw [stack]
    exact ofNat_add_neg room
  obtain ⟨m₁, entered, memory₁, sp₁, others₁, scratch₁, csr₁⟩ := run_exchange m below
  have same : framed.map m₁.regs = framed.map m.regs :=
    List.map_congr_left fun r mem => others₁ r fun here => sp_not_mem_framed (here ▸ mem)
  have stored := run_stores framed sp₁ 0 <| by
    rw [memory₁, length_framed]
    exact has.part (Nat.le_add_right _ _) (by omega)
  rw [same, memory₁, Nat.mul_zero, Nat.add_zero] at stored
  obtain ⟨m₂, completed, ram₂, sp₂, a0₂, scratch₂, csr₂⟩ :=
    run_complete (m := withRam m₁ (m.memory.ram.putWords (top - 128) (framed.map m.regs))) sp₁
      (Ram.has_putWords.2 (has.part (Nat.le_add_right _ _) (by omega)))
  have whole : run trapEntry m = .ok () m₂ := by
    rw [trapEntry, atStack_eq, List.append_assoc, run_append_of_ok entered, run_append_of_ok stored,
      completed]
  have frame : (m.memory.ram.putWords (top - 128) (framed.map m.regs)).putWords (top - 128 + 120)
      [m.regs .sp] = m.memory.ram.putWords (top - 128) m.regs.toWords := by
    rw [toWords_eq, Ram.putWords_append, List.length_map, length_framed]
  refine ⟨m₂, whole, ?_, sp₂, a0₂, ?_, fun c ne => (csr₂ c ne).trans (csr₁ c ne)⟩
  · rw [← frame, ← scratch₁]
    exact ram₂
  · rw [scratch₂, Nat.sub_add_cancel room]

theorem framed_index {r : Register} (ne : r ≠ .sp) : framed[r.index.val]? = some r := by
  cases r <;> first | rfl | exact absurd rfl ne

/-- Every register is taken from its place in the frame. -/
theorem run_trapExit {sp : Nat} (top : m.regs .sp = UInt32.ofNat sp)
    (has : m.memory.ram.Has sp 124) :
    ∃ m', run trapExit m = .ok () m' ∧ m'.memory = m.memory ∧ m'.csr = m.csr ∧
      ∀ r : Register, m'.regs r = m.memory.ram.word (sp + 4 * r.index) := by
  have room : m.memory.ram.Has (sp + 4 * 0) (4 * framed.length) := by
    rw [length_framed]
    exact has.part (Nat.le_add_right _ _) (by omega)
  obtain ⟨loaded, run₁, words, others⟩ :=
    run_loads framed top 0 room sp_not_mem_framed (by decide)
  let m₁ : Machine := { m with regs := loaded }
  have place : m₁.regs .sp + frameSpOffset = UInt32.ofNat (sp + 120) := by
    rw [UInt32.ofNat_add, ← top, ← others .sp sp_not_mem_framed]
    rfl
  have last : exec (.load .sp frameSpOffset .sp) m₁ =
      .ok () { m₁ with regs := loaded.set .sp (m.memory.ram.word (sp + 120)) } :=
    exec_load place (has.part (Nat.le_add_right _ _) (by omega))
  let m₂ : Machine := { m₁ with regs := loaded.set .sp (m.memory.ram.word (sp + 120)) }
  have whole : run trapExit m = .ok () m₂ := by
    rw [trapExit, atStack_eq, run_append_of_ok run₁, run_cons_of_ok last]
    rfl
  refine ⟨m₂, whole, rfl, rfl, fun r => ?_⟩
  by_cases stack : r = .sp
  · subst stack
    rfl
  · obtain ⟨inside, here⟩ := List.getElem?_eq_some_iff.1 (framed_index stack)
    have word := words r.index.val inside
    rw [here, Nat.zero_add] at word
    exact (if_neg stack).trans word

/-! ## The switch of contexts -/

/-- The memory after a context has been stored below `sp`, with the saved stack pointer. -/
def switchedAway (m : Machine) (sp prev : Nat) : Ram :=
  (m.memory.ram.putWords (sp - 52) (switched.map m.regs)).putWords prev [UInt32.ofNat (sp - 52)]

/-- The first half of a switch stores a context and tells where. -/
theorem run_storeContext {sp prev : Nat} (top : m.regs .sp = UInt32.ofNat sp) (room : 52 ≤ sp)
    (a0 : m.regs .a0 = UInt32.ofNat prev) (has : m.memory.ram.Has (sp - 52) 52)
    (hasPrev : m.memory.ram.Has prev 4) :
    ∃ m', run (.addImm .sp .sp (0 - switchFrameSize) :: atStack .store switched ++
        [.store .sp 0 .a0]) m = .ok () m' ∧
      m'.memory.ram = switchedAway m sp prev ∧ m'.csr = m.csr ∧
      ∀ r ≠ .sp, m'.regs r = m.regs r := by
  let m₁ : Machine := { m with regs := m.regs.set .sp (UInt32.ofNat (sp - 52)) }
  have lowered : exec (.addImm .sp .sp (0 - switchFrameSize)) m = .ok () m₁ := by
    rw [exec_addImm, top]
    exact congrArg (fun word => EStateM.Result.ok () { m with regs := m.regs.set .sp word })
      (ofNat_add_neg room)
  have same : switched.map m₁.regs = switched.map m.regs :=
    List.map_congr_left fun r mem => if_neg fun here => absurd (here ▸ mem) (by decide)
  have top₁ : m₁.regs .sp = UInt32.ofNat (sp - 52) := rfl
  have pushed := run_stores switched top₁ 0 has
  rw [same] at pushed
  let m₂ := withRam m₁ (m.memory.ram.putWords (sp - 52) (switched.map m.regs))
  have place : m₂.regs .a0 + 0 = UInt32.ofNat prev := by
    rw [UInt32.add_zero, ← a0]
    rfl
  have noted : exec (.store .sp 0 .a0) m₂ = .ok () (withRam m₂ (switchedAway m sp prev)) :=
    exec_store place rfl (Ram.has_putWords.2 hasPrev)
  refine ⟨withRam m₂ (switchedAway m sp prev), ?_, rfl, rfl, fun r ne => if_neg ne⟩
  rw [atStack_eq, List.cons_append, run_cons_of_ok lowered, run_append_of_ok pushed]
  exact run_cons_of_ok noted

/-- The second half takes up the context whose place was saved at `next`. -/
theorem run_loadContext {next target : Nat} (a1 : m.regs .a1 = UInt32.ofNat next)
    (hasNext : m.memory.ram.Has next 4) (hasTarget : m.memory.ram.Has target 52)
    (stored : m.memory.ram.word next = UInt32.ofNat target) :
    ∃ m', run (.load .sp 0 .a1 :: atStack .load switched ++
        [.addImm .sp .sp switchFrameSize]) m = .ok () m' ∧
      m'.memory = m.memory ∧ m'.csr = m.csr ∧ m'.regs .sp = UInt32.ofNat (target + 52) ∧
      ∀ (i : Nat) (h : i < switched.length),
        m'.regs switched[i] = m.memory.ram.word (target + 4 * i) := by
  have place : m.regs .a1 + 0 = UInt32.ofNat next := by rw [UInt32.add_zero, a1]
  let m₁ : Machine := { m with regs := m.regs.set .sp (UInt32.ofNat target) }
  have moved : exec (.load .sp 0 .a1) m = .ok () m₁ := by
    rw [exec_load place hasNext, stored]
  have top₁ : m₁.regs .sp = UInt32.ofNat target := rfl
  obtain ⟨loaded, popped, words, others⟩ :=
    run_loads switched top₁ 0 hasTarget (by decide) (by decide)
  let m₂ : Machine := { m₁ with regs := loaded }
  have raised : m₂.regs .sp + switchFrameSize = UInt32.ofNat (target + 52) := by
    rw [UInt32.ofNat_add]
    exact congrArg (· + switchFrameSize) (others .sp (by decide))
  refine ⟨{ m₂ with regs := loaded.set .sp (m₂.regs .sp + switchFrameSize) }, ?_, rfl, rfl, raised,
    fun i h => ?_⟩
  · rw [atStack_eq, List.cons_append, run_cons_of_ok moved, run_append_of_ok popped]
    exact run_cons_of_ok (exec_addImm ..)
  · have apart : switched[i] ≠ .sp := fun here => absurd (here ▸ List.getElem_mem h) (by decide)
    have word := words i h
    rw [Nat.zero_add] at word
    exact (if_neg apart).trans word

/-- The registers of the one context are stored below its stack pointer, and those of the other are
taken from where its stack pointer was saved. The answer is the other's return address. -/
theorem switchContext_eq {sp prev next target : Nat} (top : m.regs .sp = UInt32.ofNat sp)
    (room : 52 ≤ sp) (has : m.memory.ram.Has (sp - 52) 52) (hasPrev : m.memory.ram.Has prev 4)
    (hasNext : m.memory.ram.Has next 4) (hasTarget : m.memory.ram.Has target 52)
    (stored : (switchedAway m sp prev).word next = UInt32.ofNat target) :
    ∃ m', switchContext (UInt32.ofNat prev) (UInt32.ofNat next) m =
        .ok ((switchedAway m sp prev).word target) m' ∧
      m'.memory.ram = switchedAway m sp prev ∧ m'.csr = m.csr ∧
      m'.regs .sp = UInt32.ofNat (target + 52) ∧
      ∀ (i : Nat) (h : i < switched.length),
        m'.regs switched[i] = (switchedAway m sp prev).word (target + 4 * i) := by
  let m₀ : Machine := { m with
    regs := (m.regs.set .a0 (UInt32.ofNat prev)).set .a1 (UInt32.ofNat next) }
  obtain ⟨m₁, away, ram₁, csr₁, regs₁⟩ := run_storeContext (m := m₀) top room rfl has hasPrev
  have same : switchedAway m₀ sp prev = switchedAway m sp prev := rfl
  rw [same] at ram₁
  have hasNext₁ : m₁.memory.ram.Has next 4 := by
    rw [ram₁]
    exact Ram.has_putWords.2 (Ram.has_putWords.2 hasNext)
  have hasTarget₁ : m₁.memory.ram.Has target 52 := by
    rw [ram₁]
    exact Ram.has_putWords.2 (Ram.has_putWords.2 hasTarget)
  obtain ⟨m₂, back, memory₂, csr₂, sp₂, words⟩ :=
    run_loadContext (m := m₁) (regs₁ .a1 (by decide)) hasNext₁ hasTarget₁ (ram₁ ▸ stored)
  rw [ram₁] at words
  have halves : contextSwitch =
      (.addImm .sp .sp (0 - switchFrameSize) :: atStack .store switched ++ [.store .sp 0 .a0]) ++
        (.load .sp 0 .a1 :: atStack .load switched ++ [.addImm .sp .sp switchFrameSize]) := by
    simp [contextSwitch]
  have whole : run contextSwitch m₀ = .ok () m₂ := by
    rw [halves, run_append_of_ok away, back]
  have ra : m₂.regs .ra = (switchedAway m sp prev).word target := words 0 (by decide)
  have returned :
      (run contextSwitch >>= fun _ => do return (← get).regs .ra : Action Machine UInt32) m₀ =
        .ok (m₂.regs .ra) m₂ := Action.bind_of_ok whole
  rw [ra] at returned
  exact ⟨m₂, returned, memory₂ ▸ ram₁, csr₂.trans csr₁, sp₂, words⟩

/-! ## Frames as kernel code sees them -/

theorem chunks_bytes (r : Ram) (addr count : Nat) :
    Bytes.chunks 3 (r.bytes addr (4 * count)) =
      (List.range count).map fun i => r.bytes (addr + 4 * i) 4 := by
  induction count generalizing addr with
  | zero => simp [Ram.bytes, Bytes.chunks]
  | succ count ih =>
    have split : r.bytes addr (4 * (count + 1)) =
        r.bytes addr 4 ++ r.bytes (addr + 4) (4 * count) := by
      rw [Nat.mul_succ, Nat.add_comm, Ram.bytes, List.range_add, List.map_append, List.map_map]
      simp [Ram.bytes, Function.comp_def, Nat.add_assoc]
    rw [split, Bytes.chunks_append _ _ (Ram.length_bytes ..), ih, List.range_succ_eq_map,
      List.map_cons, List.map_map]
    simp [Function.comp_def, Nat.mul_succ, Nat.add_assoc, Nat.add_comm 4]

theorem loadWords_eq {addr count : Nat} (has : m.memory.ram.Has addr (4 * count)) :
    loadWords (UInt32.ofNat addr) count m = .ok (m.memory.ram.words addr count) m := by
  have small : addr < UInt32.size := (Nat.le_add_right addr _).trans_lt has.lt_size
  have loaded : m.memory.load (UInt32.ofNat addr) (4 * count) =
      .ok (m.memory.ram.bytes addr (4 * count)) := by
    rw [Memory.load, Ram.load_of_holds has.holds, UInt32.toNat_ofNat_of_lt' small]
  have asked : Action.ask (fun m : Machine => m.memory.load (UInt32.ofNat addr) (4 * count)) m =
      .ok (m.memory.ram.bytes addr (4 * count)) m := Action.ask_of_ok loaded
  refine (Action.bind_of_ok asked).trans ?_
  refine congrArg (EStateM.Result.ok · m) ?_
  rw [chunks_bytes, List.map_map]
  refine List.map_congr_left fun i mem => ?_
  have below := List.mem_range.1 mem
  have inside : m.memory.ram.Has (addr + 4 * i) 4 := has.part (by omega) (by omega)
  have place : (UInt32.ofNat (addr + 4 * i)).toNat = addr + 4 * i :=
    UInt32.toNat_ofNat_of_lt' ((Nat.le_add_right _ 4).trans_lt inside.lt_size)
  rw [Ram.word, Ram.wordAt, place]
  rfl

theorem loadFrame_eq {addr : Nat} (has : m.memory.ram.Has addr 124) :
    loadFrame (UInt32.ofNat addr) m =
      .ok (fun r => m.memory.ram.word (addr + 4 * r.index)) m := by
  refine (Action.bind_of_ok (loadWords_eq has)).trans ?_
  refine congrArg (EStateM.Result.ok · m) (funext fun r => ?_)
  rw [RegisterFile.ofWords_apply, Ram.words, List.getD_eq_getElem?_getD, List.getElem?_map,
    List.getElem?_range r.index.isLt]
  rfl

/-- A frame that was stored is read back, register by register. -/
theorem word_putWords_toWords {r : Ram} {addr : Nat} (f : RegisterFile) (aligned : 4 ∣ addr)
    (fits : addr + 124 ≤ UInt32.size) (reg : Register) :
    (r.putWords addr f.toWords).word (addr + 4 * reg.index) = f reg := by
  have inside : reg.index.val < f.toWords.length := by
    rw [RegisterFile.length_toWords]
    exact reg.index.isLt
  rw [Ram.word_putWords_getElem aligned (by rw [RegisterFile.length_toWords]; exact fits) inside]
  obtain ⟨_, found⟩ := List.getElem?_eq_some_iff.1 (Register.all_index reg)
  simp only [RegisterFile.toWords, List.getElem_map]
  exact congrArg f found

def placed (words : List UInt32) : List (Nat × UInt32) := words.zipIdx.map Prod.swap

theorem editFrame_zipIdx {addr k : Nat} {words : List UInt32}
    (has : m.memory.ram.Has (addr + 4 * k) (4 * words.length)) :
    editFrame (UInt32.ofNat addr) ((words.zipIdx k).map Prod.swap) m =
      .ok () (withRam m (m.memory.ram.putWords (addr + 4 * k) words)) := by
  induction words generalizing m k with
  | nil => rfl
  | cons word rest ih =>
    rw [List.length_cons] at has
    have stored := storeWord_eq (has.part le_rfl (by omega)) word
    rw [UInt32.ofNat_add] at stored
    have later := ih (m := withRam m (m.memory.ram.putWords (addr + 4 * k) [word])) (k := k + 1)
      (Ram.has_putWords.2 (has.part (by omega) (by omega)))
    exact (Action.bind_of_ok stored).trans later

theorem editFrame_placed {addr : Nat} {words : List UInt32}
    (has : m.memory.ram.Has addr (4 * words.length)) :
    editFrame (UInt32.ofNat addr) (placed words) m =
      .ok () (withRam m (m.memory.ram.putWords addr words)) :=
  editFrame_zipIdx (k := 0) has

end PocketKernel.Riscv
