import Mathlib
import PocketKernel.Proofs.Kernel.Fairness
import PocketKernel.Proofs.Riscv.Switches

/-!
# Calls among other processes

`Sound` says where the registers of every process are, whichever of them runs. A step of the
computer keeps it, and keeps the calls of the processes that it is not about; so a call is still
there when its process goes back to user code.
-/
namespace PocketKernel.Riscv.Computer
open KernelImage
variable {img : KernelImage} {pending pending' : Pending} {s s' : Computer}

/-- What holds of the computer at any time, when those calls are going on. -/
structure Sound (img : KernelImage) (pending : Pending) (s : Computer) : Prop where
  numbered : s.kernel.procs.Numbered
  covers : img.Covers s.machine.memory.ram
  unused : ∀ slot, ¬ s.kernel.procs.Used slot → pending slot = none
  parked : ∀ slot, s.kernel.procs.Used slot → slot ≠ s.kernel.procs.current →
    img.Parked pending slot s.machine.memory.ram
  /-- The next trap finds the stack of the process that runs. -/
  armed : s.kernel.procs.current ≠ 0 →
    s.machine.csr .sscratch = UInt32.ofNat (img.top s.kernel.procs.current)
  user : s.mode = .user → s.kernel.procs.current ≠ 0 ∧ pending s.kernel.procs.current = none
  kernel : s.mode = .kernel → ∃ sp, s.machine.regs .sp = UInt32.ofNat sp ∧
    img.Busy pending s.kernel.procs.current sp s.machine.regs s.machine.memory.ram

/-- The step was the last one of the call, and its process is in user code again: after the call,
with its own registers and with the result that the kernel found for it. -/
structure Finished (c : Call) (slot : Slot) (s s' : Computer) : Prop where
  own : s.kernel.procs.current = slot
  handled : ∀ stval, c.handler stval s.kernel = .ok (s'.machine.regs, s'.pc) s'.kernel
  user : s'.InUser slot
  pc : s'.pc = c.pc + TrapCause.callLength
  regs : ∀ r ≠ .a0, s'.machine.regs r = c.regs r
  result : Kernel.Returns c.regs s.kernel s'.kernel (s'.machine.regs .a0)

namespace Sound

/-- At first there is only the boot code. -/
theorem of_boots (boots : Boots img s) : Sound img (fun _ => none) s := by
  obtain ⟨kernel, pid, fresh, spawned⟩ := boots.spawned
  obtain ⟨⟨numbered, current, -⟩, -⟩ := Kernel.begun_of_spawnIdle fresh spawned
  have only (slot : Slot) (used : s.kernel.procs.Used slot) : slot = 0 := by
    obtain ⟨slot', root, m, log, -, -, -, spawned'⟩ := Kernel.spawnIdle_eq_ok spawned
    have nextPid : s.kernel.procs.nextPid = kernel.procs.nextPid := by rw [spawned']; rfl
    have first := (numbered.used_iff slot).1 used
    rw [nextPid, fresh] at first
    exact Fin.ext (Nat.lt_one_iff.1 first)
  obtain ⟨sp, top, roomy⟩ := boots.sp
  refine ⟨numbered, ⟨boots.base, boots.limit⟩, fun _ _ => rfl, fun slot used ne => ?_,
    fun ne => absurd current ne, fun user => ?_,
    fun _ => ⟨sp, top, ?_, fun ne => absurd current ne⟩⟩
  · exact absurd ((only slot used).trans current.symm) ne
  · cases user.symm.trans boots.mode
  · rw [current]
    exact roomy

/-- Something happens that is not about the processes. -/
theorem elsewhere (h : Sound img pending s) {kernel : Kernel}
    (procs : kernel.procs = s.kernel.procs) : Sound img pending { s with kernel } := by
  refine ⟨?_, h.covers, ?_, ?_, ?_, ?_, ?_⟩ <;> dsimp only <;> rw [procs]
  exacts [h.numbered, h.unused, h.parked, h.armed, h.user, h.kernel]

/-- While the process that runs keeps to its own stack, the others stay parked. -/
theorem parked_of_changesOnly (h : Sound img pending s) {r : Ram}
    (own : img.ChangesOnly (.stack (stackOf s.kernel.procs.current)) s.machine.memory.ram r)
    (others : ∀ slot ≠ s.kernel.procs.current, pending' slot = pending slot) (slot : Slot)
    (used : s.kernel.procs.Used slot) (ne : slot ≠ s.kernel.procs.current) :
    img.Parked pending' slot r :=
  (h.parked slot used ne).congr (others slot ne) (own.others _ (stackOf_injective ne))
    (own.others _ nofun)

/-- The call of the process that runs may change. -/
theorem unused_update (h : Sound img pending s) (call : Option Call) (slot : Slot)
    (unused : ¬ s.kernel.procs.Used slot) :
    Function.update pending s.kernel.procs.current call slot = none := by
  have ne : slot ≠ s.kernel.procs.current := fun here => unused (here ▸ h.numbered.current)
  rw [Function.update_of_ne ne]
  exact h.unused slot unused

/-- A call begins. -/
theorem trap (h : Sound img pending s) (user : s.mode = .user) (stval : UInt32) :
    ∃ s', Computer.trap img stval s = .ok () s' ∧
      Sound img (Function.update pending s.kernel.procs.current
        (some ⟨s.machine.regs, s.pc⟩)) s' ∧ s'.mode = .kernel ∧ s'.kernel = s.kernel := by
  obtain ⟨process, -⟩ := h.user user
  obtain ⟨m', trapped, own, held, top, armed⟩ := trap_eq h.covers (h.armed process) stval
  rw [← stackOf_process process] at own
  have roomy : img.Roomy (stackOf s.kernel.procs.current)
      (img.handlerSp s.kernel.procs.current) := by
    rw [stackOf_process process]
    exact img.roomy_handlerSp _
  exact ⟨_, trapped, ⟨h.numbered, own.covers, h.unused_update _,
    h.parked_of_changesOnly own fun slot ne => Function.update_of_ne ne _ _, fun _ => armed, nofun,
    fun _ => ⟨_, top, roomy, fun _ => ⟨_, Function.update_self _ _ _, held, rfl⟩⟩⟩, rfl, rfl⟩

theorem process_of_handler (h : Sound img pending s) (handler : s.InHandler) :
    s.kernel.procs.current ≠ 0 := fun idle =>
  handler.2 (h.numbered.idle.trans (congrArg some idle.symm))

theorem stackOf_current (h : Sound img pending s) (handler : s.InHandler) :
    stackOf s.kernel.procs.current = .kernel s.kernel.procs.current :=
  stackOf_process (h.process_of_handler handler)

theorem current_of_boot (h : Sound img pending s) (boot : s.InBoot) : s.kernel.procs.current = 0 :=
  (Option.some.inj (h.numbered.idle.symm.trans boot.2)).symm

/-- The handler that runs finds the call it was begun for. -/
theorem keptTrap (h : Sound img pending s) (handler : s.InHandler) :
    ∃ c stval, pending s.kernel.procs.current = some c ∧
      s.machine.regs .sp = UInt32.ofNat (img.handlerSp s.kernel.procs.current) ∧
      img.Held s.kernel.procs.current c s.machine.regs s.machine.memory.ram ∧
      img.keptTrap s.machine = .ok (UInt32.ofNat (img.top s.kernel.procs.current - 128), c.regs,
        ⟨TrapCause.environmentCall, stval, c.pc⟩) s.machine := by
  obtain ⟨sp, top, busy⟩ := h.kernel handler.1
  obtain ⟨c, going, held, rfl⟩ := busy.call (h.process_of_handler handler)
  obtain ⟨stval, kept⟩ := keptTrap_eq h.covers held top
  exact ⟨c, stval, going, top, held, kept⟩

/-- The call of the handler that runs is the one that it was asked for. -/
theorem exists_of_asks (h : Sound img pending s) (handler : s.InHandler) {id : UInt32}
    (asks : s.Asks img id) :
    ∃ c, pending s.kernel.procs.current = some c ∧ c.regs .a3 = id := by
  obtain ⟨c, stval, going, -, -, kept⟩ := h.keptTrap handler
  obtain ⟨addr, frame, cause, machine, kept', -, asked⟩ := asks
  obtain ⟨same, -⟩ := Action.eq_of_ok kept kept'
  simp only [Prod.mk.injEq] at same
  exact ⟨c, going, same.2.1 ▸ asked⟩

/-- What is left when a call is answered. -/
theorem exists_of_answerCall (h : Sound img pending s) (handler : s.InHandler)
    (ready : s.Asks img Syscall.getChar → s.kernel.console.emptyPolls = 0)
    (answered : Computer.answerCall img s = .ok () s') :
    ∃ c kernel machine, pending s.kernel.procs.current = some c ∧
      s' = ⟨kernel, machine, .user, c.pc + TrapCause.callLength⟩ ∧
      img.ChangesOnly (.stack (stackOf s.kernel.procs.current)) s.machine.memory.ram
        machine.memory.ram ∧
      machine.csr .sscratch = s.machine.csr .sscratch ∧
      (∀ stval, c.handler stval s.kernel =
        .ok (machine.regs, c.pc + TrapCause.callLength) kernel) ∧
      (∀ r ≠ .a0, machine.regs r = c.regs r) ∧
      Kernel.Returns c.regs s.kernel kernel (machine.regs .a0) := by
  obtain ⟨c, stval, going, top, held, kept⟩ := h.keptTrap handler
  unfold Computer.answerCall at answered
  rw [Action.bind_of_ok (onMachine_of_ok kept)] at answered
  obtain ⟨⟨frame', pc⟩, s₁, handled, answered⟩ := Action.bind_eq_ok.1 answered
  obtain ⟨kernel, ran, rfl⟩ := Action.within_eq_ok.1 handled
  obtain ⟨m', left, own, rfl, armed⟩ := leaveTrap_eq h.covers top frame' pc
  have left' : onMachine (img.leaveTrap (UInt32.ofNat (img.top s.kernel.procs.current - 128))
      m'.regs pc) { s with kernel } = .ok pc { s with kernel, machine := m' } :=
    onMachine_of_ok left
  obtain ⟨pc', s₂, leaving, ended⟩ := Action.bind_eq_ok.1 answered
  obtain ⟨rfl, rfl⟩ := Action.eq_of_ok left' leaving
  cases ended
  obtain ⟨returns, others, rfl⟩ := Kernel.returns_of_handleTrap
    (fun id => ready ⟨_, _, _, _, kept, rfl, id⟩) ran
  rw [← h.stackOf_current handler] at own
  exact ⟨c, kernel, m', going, rfl, own, armed, fun stval' => ran, others, returns⟩

/-- A call ends, and its process is in user code. -/
theorem answerCall (h : Sound img pending s) (handler : s.InHandler)
    (ready : s.Asks img Syscall.getChar → s.kernel.console.emptyPolls = 0)
    (answered : Computer.answerCall img s = .ok () s') :
    Sound img (Function.update pending s.kernel.procs.current none) s' ∧
      ∃ c, pending s.kernel.procs.current = some c ∧
        Finished c s.kernel.procs.current s s' := by
  obtain ⟨c, kernel, machine, going, rfl, own, armed, handled, others, returns⟩ :=
    h.exists_of_answerCall handler ready answered
  have left : Sound img (Function.update pending s.kernel.procs.current none)
      { s with machine, mode := .user, pc := c.pc + TrapCause.callLength } :=
    ⟨h.numbered, own.covers, h.unused_update none,
      h.parked_of_changesOnly own fun slot ne => Function.update_of_ne ne _ _,
      fun ne => armed.trans (h.armed ne),
      fun _ => ⟨h.process_of_handler handler, Function.update_self _ _ _⟩, nofun⟩
  have current : kernel.procs.current = s.kernel.procs.current := by rw [returns.procs]
  exact ⟨left.elsewhere returns.procs, c, going, rfl, handled, ⟨rfl, current⟩, rfl, others, returns⟩

/-- The handler computes, and still has what it needs. -/
theorem handlerCode (h : Sound img pending s) (handler : s.InHandler) {machine : Machine}
    (own : ComputesIn (img.HandlerByte s.kernel.procs.current) s.machine machine)
    (keeps : KeepsTrap img s.machine machine) : Sound img pending { s with machine } := by
  have changes : img.ChangesOnly (.stack (.kernel s.kernel.procs.current)) s.machine.memory.ram
      machine.memory.ram :=
    ⟨⟨own.base.trans h.covers.base, own.limit.trans h.covers.limit⟩, fun q ne =>
      sameWords_of_computesIn ne own fun a mem => ⟨mem.1, mem.2.trans_le (Nat.sub_le _ _)⟩⟩
  rw [← h.stackOf_current handler] at changes
  obtain ⟨c, -, going, top, held, -⟩ := h.keptTrap handler
  obtain ⟨sp, kept⟩ := keeps
  have still : img.Held s.kernel.procs.current c machine.regs machine.memory.ram := by
    refine ⟨fun reg => ?_, held.kept.imp fun stval found => ?_⟩
    · rw [← held.frame reg]
      exact word_of_computesIn own (img.holds_frame _ reg) fun a mem inside =>
        (mem.2.trans_le ((Nat.le_add_right _ _).trans inside.1)).false
    · rw [sp, top, UInt32.toNat_ofNat_of_lt' (img.handlerSp_lt _)] at kept
      exact kept.trans found
  refine ⟨h.numbered, changes.covers, h.unused, h.parked_of_changesOnly changes fun _ _ => rfl,
    fun ne => (congrFun own.csr _).trans (h.armed ne), h.user, fun _ =>
      ⟨_, sp.trans top, ?_, fun _ => ⟨c, going, still, rfl⟩⟩⟩
  rw [h.stackOf_current handler]
  exact img.roomy_handlerSp _

theorem bootCode (h : Sound img pending s) (boot : s.InBoot) {machine : Machine} {sp : Nat}
    (own : ComputesIn img.BootByte s.machine machine) (top : machine.regs .sp = UInt32.ofNat sp)
    (roomy : img.Roomy .boot sp) : Sound img pending { s with machine } := by
  have idle : s.kernel.procs.current = 0 := h.current_of_boot boot
  have stack : stackOf s.kernel.procs.current = .boot := by rw [idle]; rfl
  have changes : img.ChangesOnly (.stack .boot) s.machine.memory.ram machine.memory.ram :=
    ⟨⟨own.base.trans h.covers.base, own.limit.trans h.covers.limit⟩, fun q ne =>
      sameWords_of_computesIn ne own fun a mem => mem⟩
  rw [← stack] at changes roomy
  exact ⟨h.numbered, changes.covers, h.unused, h.parked_of_changesOnly changes fun _ _ => rfl,
    fun ne => absurd idle ne, h.user, fun _ => ⟨sp, top, roomy, fun ne => absurd idle ne⟩⟩

/-- A process is made while the boot code runs, and its first frame is put on its stack. -/
theorem create (h : Sound img pending s) (boot : s.InBoot) {kernel : Kernel} {machine : Machine}
    {image : Bytes} {pid : UInt32} {slot : Slot} (free : s.kernel.procs.freeSlot = some slot)
    (made : Kernel.createProcess image s.kernel = .ok pid kernel)
    (seeded : img.seedStack slot s.machine = .ok () machine) :
    Sound img pending { s with kernel, machine } := by
  have idle : s.kernel.procs.current = 0 := h.current_of_boot boot
  obtain ⟨slot', root, savedSp, -, free', procs⟩ := Kernel.procs_of_createProcess made
  obtain rfl : slot = slot' := Option.some.inj (free.symm.trans free')
  have unused := ProcessTable.not_used_of_freeSlot free
  have process : slot ≠ 0 := fun here => unused (here ▸ h.numbered.used_idle)
  obtain ⟨m', seeded', saves, regs, csr⟩ := seedStack_eq h.covers process
  obtain ⟨-, rfl⟩ := Action.eq_of_ok seeded' seeded
  have numbered : kernel.procs.Numbered := procs ▸ h.numbered.install free root savedSp
  have current : kernel.procs.current = s.kernel.procs.current := by rw [procs]; rfl
  have used (other : Slot) :
      kernel.procs.Used other ↔ slot = other ∨ s.kernel.procs.Used other := by
    rw [procs]
    exact ProcessTable.used_install_iff
  refine ⟨numbered, saves.covers, fun other none => ?_, fun other taken ne => ?_, ?_, ?_, ?_⟩
  · exact h.unused other fun taken => none ((used other).2 (.inr taken))
  · dsimp only at ne
    rw [current] at ne
    by_cases new : other = slot
    · exact new ▸ saves.fresh rfl process (h.unused slot unused)
    · have taken := ((used other).1 taken).resolve_left (Ne.symm new)
      exact saves.parked (h.parked other taken ne) new rfl
  · exact fun ne => absurd (current.trans idle) ne
  · intro user
    cases user.symm.trans boot.1
  · intro mode
    dsimp only
    rw [regs, current, idle]
    obtain ⟨sp, top, busy⟩ := h.kernel mode
    rw [idle] at busy
    exact ⟨sp, top, busy.roomy, fun ne => absurd rfl ne⟩

/-- The process that runs gives up the core, and is parked. -/
theorem switchTo (h : Sound img pending s) (mode : s.mode = .kernel) {kernel : Kernel}
    (numbered : kernel.procs.Numbered)
    (used : ∀ slot, kernel.procs.Used slot ↔ s.kernel.procs.Used slot)
    (moved : kernel.procs.current ≠ s.kernel.procs.current) :
    ∃ s', Computer.switchTo img s.kernel.procs.current kernel.procs.current { s with kernel } =
      .ok () s' ∧ Sound img pending s' ∧ s'.kernel = kernel := by
  obtain ⟨sp, top, busy⟩ := h.kernel mode
  have parked := h.parked _ ((used _).1 numbered.current) moved
  obtain ⟨s', switched, same, saves, armed, goes⟩ :=
    switchTo_eq (s := { s with kernel }) moved h.covers top busy.roomy parked
  -- The kernel has passed the turn before; what follows is the machine's part.
  have kernel' : s'.kernel = kernel := same
  refine ⟨s', switched, ?_, kernel'⟩
  refine ⟨kernel' ▸ numbered, saves.covers, fun slot unused => ?_, fun slot used' ne => ?_, ?_, ?_,
    ?_⟩
  · rw [kernel', used] at unused
    exact h.unused slot unused
  · rw [kernel', used] at used'
    by_cases prev : slot = s.kernel.procs.current
    · exact prev ▸ saves.busy rfl busy fun reg preserved => if_neg fun here => by
        cases here
        cases preserved
    · exact saves.parked (h.parked slot used' prev) prev rfl
  · rw [kernel']
    exact fun _ => armed
  · intro user
    rw [kernel']
    rcases goes with ⟨-, fresh⟩ | ⟨stays, -⟩
    · exact fresh
    · cases user.symm.trans (stays.trans mode)
  · intro kernelMode
    rw [kernel']
    rcases goes with ⟨begins, -⟩ | ⟨-, goesOn⟩
    · cases kernelMode.symm.trans begins
    · exact goesOn

/-- A yield never gets stuck. -/
theorem yieldNow (h : Sound img pending s) (mode : s.mode = .kernel) :
    ∃ s', Computer.yieldNow img s = .ok () s' ∧ Sound img pending s' ∧
      Kernel.yieldNow s.kernel = .ok () s'.kernel := by
  obtain ⟨kernel, gave⟩ := Kernel.exists_yieldNow_eq_ok s.kernel
  have passed : onKernel Kernel.yieldNow s = .ok () { s with kernel } := Action.within_of_ok gave
  obtain ⟨same, current⟩ := Kernel.sameProcesses_of_yieldNow gave
  unfold Computer.yieldNow
  rw [Action.get_bind, Action.bind_of_ok passed, Action.get_bind]
  dsimp only
  rcases Kernel.yieldNow_eq_ok.1 gave with ⟨stays, rfl⟩ | ⟨moves, -⟩
  · exact ⟨s, by rw [if_neg (not_not.2 rfl)]; rfl, h, gave⟩
  · rw [← current] at moves
    rw [if_pos moves]
    obtain ⟨s', switched, sound, rfl⟩ :=
      h.switchTo mode (Kernel.numbered_of_yieldNow h.numbered gave) same.used_iff moves
    exact ⟨s', switched, sound, gave⟩

/-- A handler that waits does one turn of the loop in which it waits. -/
theorem handler_of_waits (h : Sound img pending s) (waits : Acts img .waits s s') :
    ∃ c, pending s.kernel.procs.current = some c ∧
      ∀ stval, c.handler stval s.kernel = c.handler stval s'.kernel := by
  cases waits with
  | waits handler asks polled gave =>
    obtain ⟨c, going, id⟩ := h.exists_of_asks handler asks
    obtain ⟨console, -, rfl⟩ := Action.within_eq_ok.1 polled
    have polls : Sound img pending { s with kernel := { s.kernel with console } } := h.elsewhere rfl
    obtain ⟨s₁, gave', -, passed⟩ := polls.yieldNow handler.1
    obtain ⟨-, rfl⟩ := Action.eq_of_ok gave' gave
    exact ⟨c, going, fun stval => Kernel.handleTrap_of_yieldNow id polled passed rfl⟩

/-- A process ends, and another one goes on. -/
theorem exit (h : Sound img pending s) (mode : s.mode = .kernel) {kernel : Kernel}
    (ended : Kernel.exitCurrent s.kernel = .error .exitedResumed kernel)
    (moved : kernel.procs.current ≠ s.kernel.procs.current) :
    ∃ s', Computer.switchTo img s.kernel.procs.current kernel.procs.current { s with kernel } =
      .ok () s' ∧ Sound img pending s' ∧ s'.kernel = kernel := by
  obtain ⟨log, gave⟩ := Kernel.yieldNow_of_exitCurrent ended
  have marked := Kernel.numbered_exitCurrent h.numbered
  have same := (Kernel.sameProcesses_of_yieldNow gave).1
  refine h.switchTo mode (Kernel.numbered_of_yieldNow marked gave) (fun slot => ?_) moved
  refine (same.used_iff slot).trans (ProcessTable.used_update_iff ?_ slot)
  exact ⟨fun _ => h.numbered.current, fun _ => by simp [Process.Used]⟩

inductive Goes (s s' : Computer) (pending : Pending) : Pending → Prop where
  | on : Goes s s' pending pending
  | begins (user : s.mode = .user) (kernel : s'.mode = .kernel) :
      Goes s s' pending
        (Function.update pending s.kernel.procs.current (some ⟨s.machine.regs, s.pc⟩))
  | ends {c : Call} (going : pending s.kernel.procs.current = some c)
      (finished : Finished c s.kernel.procs.current s s') :
      Goes s s' pending (Function.update pending s.kernel.procs.current none)

theorem step (h : Sound img pending s) (step : Step img s s') :
    ∃ pending', Sound img pending' s' ∧ Goes s s' pending pending' := by
  cases step with
  | userCode user regs pc memory =>
    refine ⟨pending, ⟨h.numbered, h.covers, h.unused, h.parked, h.armed, h.user, fun mode => ?_⟩,
      .on⟩
    cases user.symm.trans mode
  | trap user stval trapped =>
    obtain ⟨s₁, trapped', sound, kernel, -⟩ := h.trap user stval
    obtain ⟨-, rfl⟩ := Action.eq_of_ok trapped' trapped
    exact ⟨_, sound, .begins user kernel⟩
  | input console => exact ⟨pending, h.elsewhere rfl, .on⟩
  | handlerCode handler own sp => exact ⟨pending, h.handlerCode handler own sp, .on⟩
  | bootCode boot own top roomy => exact ⟨pending, h.bootCode boot own top roomy, .on⟩
  | answer handler ready answered =>
    obtain ⟨sound, c, going, finished⟩ := h.answerCall handler ready answered
    exact ⟨_, sound, .ends going finished⟩
  | wait handler asks polled gave =>
    obtain ⟨console, -, rfl⟩ := Action.within_eq_ok.1 polled
    have polls : Sound img pending { s with kernel := { s.kernel with console } } := h.elsewhere rfl
    obtain ⟨s₁, gave', sound, -⟩ := polls.yieldNow handler.1
    obtain ⟨-, rfl⟩ := Action.eq_of_ok gave' gave
    exact ⟨pending, sound, .on⟩
  | exit handler asks ended moved switched =>
    obtain ⟨s₁, switched', sound, -⟩ := h.exit handler.1 ended moved
    obtain ⟨-, rfl⟩ := Action.eq_of_ok switched' switched
    exact ⟨pending, sound, .on⟩
  | create boot free made seeded =>
    exact ⟨pending, h.create boot free made seeded, .on⟩
  | yield boot gave =>
    obtain ⟨s₁, gave', sound, -⟩ := h.yieldNow boot.1
    obtain ⟨-, rfl⟩ := Action.eq_of_ok gave' gave
    exact ⟨pending, sound, .on⟩

/-- A call that is going on goes on after the step, or the step was its last one. -/
theorem going_of_goes (h : Sound img pending s) (goes : Goes s s' pending pending') {slot : Slot}
    {c : Call} (going : pending slot = some c) :
    pending' slot = some c ∨ Finished c slot s s' := by
  cases goes with
  | on => exact .inl going
  | begins user =>
    -- User code is in no call, so the call that begins takes the place of no other.
    have ne : slot ≠ s.kernel.procs.current := fun here => by
      cases going.symm.trans (here ▸ (h.user user).2)
    exact .inl ((Function.update_of_ne ne _ _).trans going)
  | ends going' finished =>
    by_cases here : slot = s.kernel.procs.current
    · subst here
      obtain rfl := Option.some.inj (going.symm.trans going')
      exact .inr finished
    · exact .inl ((Function.update_of_ne here _ _).trans going)

/-- While its process is not in user code, a call goes on. -/
theorem run {slot : Slot} {c : Call} (h : Sound img pending s) (going : pending slot = some c)
    (run : Relation.ReflTransGen (fun a b => Step img a b ∧ ¬ b.InUser slot) s s') :
    ∃ pending', Sound img pending' s' ∧ pending' slot = some c := by
  induction run with
  | refl => exact ⟨pending, h, going⟩
  | tail _ next ih =>
    obtain ⟨pending₁, sound, going₁⟩ := ih
    obtain ⟨pending₂, sound₂, goes⟩ := sound.step next.1
    exact ⟨pending₂, sound₂,
      (sound.going_of_goes goes going₁).resolve_right fun last => next.2 last.user⟩

/-- The step by which a process comes back to user code is the last one of its call. -/
theorem back {slot : Slot} {c : Call} (h : Sound img pending s) (going : pending slot = some c)
    (step : Step img s s') (user : s'.InUser slot) :
    Finished c slot s s' ∧ s'.machine.csr .sscratch = UInt32.ofNat (img.top slot) := by
  obtain ⟨pending', sound, goes⟩ := h.step step
  obtain ⟨mode, rfl⟩ := user
  obtain ⟨process, none⟩ := sound.user mode
  -- After the step the process is in user code and so in no call.
  refine ⟨(h.going_of_goes goes going).resolve_left fun still => ?_, sound.armed process⟩
  cases none.symm.trans still

end Sound

theorem exists_sound (reached : Reached img s) : ∃ pending, Sound img pending s := by
  obtain ⟨first, boots, run⟩ := reached
  induction run with
  | refl => exact ⟨_, .of_boots boots⟩
  | tail _ next ih =>
    obtain ⟨pending, sound⟩ := ih
    obtain ⟨pending', sound', -⟩ := sound.step next
    exact ⟨pending', sound'⟩

/-- A system call always gets into the kernel. Whatever other processes do from then on, and however
often the process yields: when it next is in user code, it is after its call and has its registers
back, except that `a0` is what its own call returned, and its next trap will find its own stack.
This is where the kernel's handler of the call ends, and every time that the process waited was one
turn of the loop in that handler. -/
theorem user_after_call {s₀ : Computer} {slot : Slot} (reached : Reached img s₀)
    (user : s₀.InUser slot) (stval : UInt32) :
    ∃ s₁, trap img stval s₀ = .ok () s₁ ∧ ∀ s s',
      Relation.ReflTransGen (fun a b => Step img a b ∧ ¬ b.InUser slot) s₁ s → Step img s s' →
        (s'.InUser slot →
          (∀ r ≠ .a0, s'.machine.regs r = s₀.machine.regs r) ∧
          s.kernel.procs.current = slot ∧
          Kernel.Returns s₀.machine.regs s.kernel s'.kernel (s'.machine.regs .a0) ∧
          s'.pc = s₀.pc + TrapCause.callLength ∧
          s'.machine.csr .sscratch = UInt32.ofNat (img.top slot) ∧
          s₀.call.handler stval s.kernel = .ok (s'.machine.regs, s'.pc) s'.kernel) ∧
        (s.kernel.procs.current = slot → Acts img .waits s s' →
          s₀.call.handler stval s.kernel = s₀.call.handler stval s'.kernel) := by
  obtain ⟨pending, sound⟩ := exists_sound reached
  obtain ⟨mode, rfl⟩ := user
  obtain ⟨s₁, trapped, begun, -⟩ := sound.trap mode stval
  refine ⟨s₁, trapped, fun s s' run last => ?_⟩
  obtain ⟨pending', sound', going⟩ := begun.run (Function.update_self _ _ _) run
  refine ⟨fun back => ?_, fun own waits => ?_⟩
  · obtain ⟨finished, armed⟩ := sound'.back going last back
    exact ⟨finished.regs, finished.own, finished.result, finished.pc, armed,
      finished.handled stval⟩
  · obtain ⟨c, going', turn⟩ := sound'.handler_of_waits waits
    obtain rfl := Option.some.inj (going.symm.trans (own ▸ going'))
    exact turn stval

/-! ## Two processes at the console -/

def smallStart : Place → Nat :=
  Place.number 0x80300000 (fun slot => 0x80301000 + 8192 * slot) fun slot => 0x80311000 + 4 * slot

theorem smallStart_aligned (p : Place) : 4 ∣ smallStart p := by
  rcases p with (_ | slot) | slot <;> simp [smallStart, Place.number] <;> omega

theorem smallStart_inside (p : Place) :
    0x80300000 ≤ smallStart p ∧ smallStart p + p.size 4096 ≤ 0x80311020 := by
  rcases p with (_ | slot) | slot <;>
    simp [smallStart, Place.size, Place.number, kernelStackSize] <;> omega

theorem smallStart_apart (p q : Place) (ne : p ≠ q) :
    smallStart p + p.size 4096 ≤ smallStart q ∨ smallStart q + q.size 4096 ≤ smallStart p := by
  rcases p with (_ | slot) | slot <;> rcases q with (_ | other) | other <;>
    simp [smallStart, Place.size, Place.number, kernelStackSize, Fin.ext_iff] at ne ⊢ <;> omega

/-- The handler has the frame and the place of the call in registers, and the rest of the cause on
its stack. -/
def smallKeeping : Keeping where
  words := 2
  keep addr cause :=
    (fun r => if r = .s0 then addr else if r = .s1 then cause.sepc else clobber,
      [cause.scause, cause.stval])
  kept regs stack := (regs .s0, ⟨stack.getD 0 0, stack.getD 1 0, regs .s1⟩)
  length_keep _ _ := rfl
  kept_congr _ same := by rw [same .s0 rfl, same .s1 rfl]
  kept_keep _ cause _ := ⟨cause.stval, rfl⟩

def smallImage : KernelImage where
  toKeeping := smallKeeping
  base := 0x80300000
  limit := 0x80311020
  bootSize := 4096
  start := smallStart
  userEntry := 0x80200100
  yieldReturn := 0x80200200
  entry_ne := by decide
  bootSize_aligned := by decide
  start_aligned := smallStart_aligned
  room := by decide
  inside := smallStart_inside
  apart := smallStart_apart

def booted : Computer where
  kernel := Kernel.roomyIdle
  machine := (Machine.setReg .sp 0x80301000).finalState (.reset 0x80300000 0x80311020 [])
  mode := .kernel
  pc := 0

def created (s : Computer) : Computer :=
  s.kernel.procs.freeSlot.elim s fun slot => { s with
    kernel := (Kernel.createProcess []).finalState s.kernel
    machine := (smallImage.seedStack slot).finalState s.machine }

def userAsks (word pc : UInt32) (s : Computer) : Computer :=
  { s with
    machine := { s.machine with regs := fun r => if r = .a3 then Syscall.getChar else word }
    pc }

def twoCreated : Computer := created (created booted)

def inFirst : Computer :=
  userAsks 11 0x01000040 ((yieldNow smallImage).finalState twoCreated)

def trapped (s : Computer) : Computer := (trap smallImage 0).finalState s

/-- Two polls will find nothing, and the next one a byte. -/
def announced (s : Computer) : Computer :=
  { s with kernel := { s.kernel with console := ⟨2, [⟨0x41, 0⟩], 0, .empty⟩ } }

def waited (s : Computer) : Computer :=
  (yieldNow smallImage).finalState
    { s with kernel := (Kernel.onConsole Console.poll).finalState s.kernel }

def inSecond : Computer := userAsks 22 0x01000080 (waited (announced (trapped inFirst)))

/-- The second process waits as well, and the handler of the first one goes on. -/
def backInFirst : Computer := waited (trapped inSecond)

theorem step_created (slot : Slot) {s : Computer} (ready : s.InBoot ∧
    s.kernel.procs.freeSlot = some slot ∧ (Kernel.createProcess []).answers s.kernel = true ∧
      (smallImage.seedStack slot).answers s.machine = true) :
    Step smallImage s (created s) := by
  obtain ⟨boot, free, made, seeded⟩ := ready
  obtain ⟨pid, made⟩ := Action.exists_ok_of_answers made
  obtain ⟨⟨⟩, seeded⟩ := Action.exists_ok_of_answers seeded
  rw [created, free]
  exact .create boot free made seeded

theorem step_userAsks {s : Computer} (user : s.mode = .user) (word pc : UInt32) :
    Step smallImage s (userAsks word pc s) := .userCode user _ pc s.kernel.memory

theorem acts_trapped {s : Computer}
    (ready : s.mode = .user ∧ (trap smallImage 0).answers s = true) :
    Acts smallImage (.calls s.machine.regs) s (trapped s) := by
  obtain ⟨⟨⟩, answers⟩ := Action.exists_ok_of_answers ready.2
  exact .calls ready.1 0 answers

theorem acts_waited {s : Computer} (ready : s.InHandler ∧
    (smallImage.keptTrap.answersWith (fun (_, frame, cause) =>
      cause.scause = TrapCause.environmentCall && frame .a3 = Syscall.getChar) s.machine = true) ∧
    (Kernel.onConsole Console.poll).answersWith (· = none) s.kernel = true ∧
    (yieldNow smallImage).answers
      { s with kernel := (Kernel.onConsole Console.poll).finalState s.kernel } = true) :
    Acts smallImage .waits s (waited s) := by
  obtain ⟨handler, asks, polled, gave⟩ := ready
  obtain ⟨⟨addr, frame, cause⟩, kept, call⟩ := Action.exists_ok_of_answersWith asks
  obtain ⟨byte, polled, none⟩ := Action.exists_ok_of_answersWith polled
  obtain ⟨⟨⟩, gave⟩ := Action.exists_ok_of_answers gave
  simp only [Bool.and_eq_true, decide_eq_true_eq] at call none
  subst none
  exact .waits handler ⟨addr, frame, cause, _, kept, call⟩ polled gave

theorem reached_inFirst : Reached smallImage inFirst := by
  obtain ⟨pid, spawned⟩ : ∃ pid, Kernel.spawnIdle Kernel.roomyKernel = .ok pid Kernel.roomyIdle :=
    Action.exists_ok_of_answers (by decide +kernel)
  have kernel : booted.kernel = Kernel.roomyIdle := by rw [booted]
  have roomy : smallImage.Roomy .boot 0x80301000 := by
    unfold KernelImage.Roomy
    decide
  have boots : Boots smallImage booted :=
    ⟨rfl, ⟨Kernel.roomyKernel, pid, rfl, kernel ▸ spawned⟩, rfl, rfl, _, rfl, roomy⟩
  have first : Step smallImage booted (created booted) :=
    step_created 1 (by decide +kernel)
  have second : Step smallImage (created booted) twoCreated :=
    step_created 2 (by decide +kernel)
  obtain ⟨boot, answers, user⟩ : twoCreated.InBoot ∧
      (yieldNow smallImage).answers twoCreated = true ∧
      ((yieldNow smallImage).finalState twoCreated).mode = .user := by decide +kernel
  obtain ⟨⟨⟩, gave⟩ := Action.exists_ok_of_answers answers
  have passed : Step smallImage twoCreated ((yieldNow smallImage).finalState twoCreated) :=
    .yield boot gave
  exact ⟨booted, boots, (((Relation.ReflTransGen.single first).tail second).tail passed).tail
    (step_userAsks user 11 0x01000040)⟩

/-- The first process asks for a byte and waits, the second one begins, asks for a byte and waits,
and then the first one gets its byte. -/
theorem user_after_call_backInFirst :
    ∃ s', Reached smallImage inFirst ∧ inFirst.InUser 1 ∧
      trap smallImage 0 inFirst = .ok () (trapped inFirst) ∧
      Relation.ReflTransGen (fun a b => Step smallImage a b ∧ ¬ b.InUser 1) (trapped inFirst)
        backInFirst ∧
      Step smallImage backInFirst s' ∧ s'.InUser 1 ∧
      (∀ r ≠ .a0, s'.machine.regs r = inFirst.machine.regs r) ∧
      backInFirst.kernel.procs.current = 1 ∧
      Kernel.Returns inFirst.machine.regs backInFirst.kernel s'.kernel (s'.machine.regs .a0) ∧
      s'.pc = inFirst.pc + TrapCause.callLength ∧
      s'.machine.csr .sscratch = UInt32.ofNat (smallImage.top 1) ∧
      inFirst.call.handler 0 backInFirst.kernel = .ok (s'.machine.regs, s'.pc) s'.kernel ∧
      Acts smallImage .waits (announced (trapped inFirst)) (waited (announced (trapped inFirst))) ∧
      inFirst.call.handler 0 (announced (trapped inFirst)).kernel =
        inFirst.call.handler 0 (waited (announced (trapped inFirst))).kernel := by
  have user : inFirst.InUser 1 := by decide +kernel
  obtain ⟨s₁, began, comesBack⟩ := user_after_call reached_inFirst user 0
  obtain rfl : trapped inFirst = s₁ := Action.finalState_of_ok began
  have wait : Acts smallImage .waits (announced (trapped inFirst))
      (waited (announced (trapped inFirst))) := acts_waited (by decide +kernel)
  have asks : Step smallImage inSecond (trapped inSecond) :=
    (acts_trapped (by decide +kernel)).step
  have waits : Step smallImage (trapped inSecond) backInFirst :=
    (acts_waited (by decide +kernel)).step
  obtain ⟨own, away₁, away₂, userSecond, away₃, away₄⟩ :
      (announced (trapped inFirst)).kernel.procs.current = 1 ∧
      ¬ (announced (trapped inFirst)).InUser 1 ∧
      ¬ (waited (announced (trapped inFirst))).InUser 1 ∧
      (waited (announced (trapped inFirst))).mode = .user ∧
      ¬ inSecond.InUser 1 ∧ ¬ (trapped inSecond).InUser 1 := by decide +kernel
  obtain ⟨handler, ready, answers, away₅, back⟩ : backInFirst.InHandler ∧
      backInFirst.kernel.console.emptyPolls = 0 ∧
      (answerCall smallImage).answers backInFirst = true ∧ ¬ backInFirst.InUser 1 ∧
      ((answerCall smallImage).finalState backInFirst).InUser 1 := by decide +kernel
  obtain ⟨⟨⟩, answered⟩ := Action.exists_ok_of_answers answers
  have last : Step smallImage backInFirst ((answerCall smallImage).finalState backInFirst) :=
    .answer handler (fun _ => ready) answered
  have begun : Relation.ReflTransGen (fun a b => Step smallImage a b ∧ ¬ b.InUser 1)
      (trapped inFirst) (announced (trapped inFirst)) := .single ⟨.input _, away₁⟩
  have run : Relation.ReflTransGen (fun a b => Step smallImage a b ∧ ¬ b.InUser 1)
      (trapped inFirst) backInFirst :=
    (((begun.tail ⟨wait.step, away₂⟩).tail ⟨step_userAsks userSecond 22 0x01000080, away₃⟩).tail
      ⟨asks, away₄⟩).tail ⟨waits, away₅⟩
  obtain ⟨regs, current, returns, pc, stack, ended⟩ := (comesBack _ _ run last).1 back
  exact ⟨_, reached_inFirst, user, began, run, last, back, regs, current, returns, pc, stack, ended,
    wait, (comesBack _ _ begun wait.step).2 own wait⟩

end PocketKernel.Riscv.Computer
