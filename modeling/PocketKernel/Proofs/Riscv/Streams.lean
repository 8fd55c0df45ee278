import Mathlib
import PocketKernel.Proofs.Riscv.Calls

/-!
# The streams of the console

Bytes go out by one call and come in by another, and a process that waits for a byte may let the
others run as often as it likes. An `Account` of a run has the calls that are going on and those
that have ended, with their registers, turns and polls. Main statement: what has gone out and what
has come in are the calls that ended, in order, whatever the processes did (`console_streams`).
-/
namespace PocketKernel

namespace Console

/-- A poll finds what is first in line. -/
theorem polled_of_poll {c d : Console} {item : Option UInt8} (found : c.poll = .ok item d) :
    c.polled = item :: d.polled ∧ d.polls = c.polls + 1 ∧ d.output = c.output := by
  have next := c.poll_eq
  cases line : c.polled with
  | nil =>
    rw [line] at next
    cases next.symm.trans found
  | cons first rest =>
    rw [line] at next
    obtain ⟨d', found', rfl, polls, output⟩ := next
    cases found'.symm.trans found
    exact ⟨rfl, polls, output⟩

theorem input_eq (c : Console) : c.input = c.polled.reduceOption := by
  obtain ⟨emptyPolls, arrivals, polls, output⟩ := c
  have pauses (n : Nat) : (List.replicate n (none : Option UInt8)).reduceOption = [] := by
    simp [List.reduceOption_replicate_none]
  simp only [input, polled, List.reduceOption_append, pauses, List.nil_append]
  induction arrivals with
  | nil => rfl
  | cons a rest ih =>
    simp [List.reduceOption_append, List.reduceOption_cons_of_some, pauses, ih]

end Console

namespace Kernel

/-- What a call that returns with that word has done at the console. -/
structure AtConsole (frame : RegisterFile) (c d : Console) (word : UInt32) : Prop where
  output : d.output.toList = c.output.toList ++
    if frame .a3 = Syscall.putChar then [(frame .a0).toUInt8] else []
  input : ∃ bytes, c.input = bytes ++ d.input ∧
    bytes.map (·.toUInt32) = if frame .a3 = Syscall.getChar then [word] else []
  polls : d.polls = c.polls + if frame .a3 = Syscall.getChar then 1 else 0

theorem atConsole_of_eq {frame : RegisterFile} {c d : Console} (word : UInt32)
    (put : frame .a3 ≠ Syscall.putChar) (get : frame .a3 ≠ Syscall.getChar) (same : d = c) :
    AtConsole frame c d word := by
  subst same
  exact ⟨by simp [put], ⟨[], rfl, by simp [get]⟩, by simp [get]⟩

theorem Returns.atConsole {frame : RegisterFile} {k k' : Kernel} {word : UInt32}
    (h : Returns frame k k' word) : AtConsole frame k.console k'.console word := by
  cases h with
  | putChar id put =>
    have other : frame .a3 ≠ Syscall.getChar := id ▸ by decide
    obtain ⟨console, written, rfl⟩ := Action.within_eq_ok.1 put
    cases written
    exact ⟨by simp [id], ⟨[], rfl, by simp [other]⟩, by simp [other]⟩
  | @getChar byte id found =>
    have other : frame .a3 ≠ Syscall.putChar := id ▸ by decide
    obtain ⟨console, polled, rfl⟩ := Action.within_eq_ok.1 found
    obtain ⟨line, polls, output⟩ := Console.polled_of_poll polled
    refine ⟨by simp [other, output], ⟨[byte], ?_, by simp [id]⟩, by simp [id, polls]⟩
    simp [Console.input_eq, line, List.reduceOption_cons_of_some]
  | readFile id read =>
    obtain ⟨log, data, -, left⟩ := finalState_readFile frame k
    refine atConsole_of_eq word (id ▸ by decide) (id ▸ by decide) ?_
    rw [← Action.finalState_of_ok read, left]
  | writeFile id written =>
    refine atConsole_of_eq word (id ▸ by decide) (id ▸ by decide) ?_
    rw [← Action.finalState_of_ok written]
    rcases finalState_writeFile frame k with ⟨log, left⟩ |
      ⟨file, data, files, log, -, -, ⟨flushed, disk, -, left⟩ | ⟨fault, disk, -, left⟩⟩ <;>
      rw [left]

theorem console_of_yieldNow {k k' : Kernel} (gave : yieldNow k = .ok () k') :
    k'.console = k.console :=
  (yieldNow_preserves (P := fun k' => k'.console = k.console) fun _ _ h => h).of_ok gave rfl

end Kernel

namespace Riscv.Computer
open KernelImage
variable {img : KernelImage} {pending pending' : Pending} {s s' : Computer}

namespace Sound

/-- Every step is an act, or something comes to the console. -/
theorem acts_of_step (h : Sound img pending s) (step : Step img s s') :
    (∃ act, Acts img act s s') ∨
      ∃ console, s' = { s with kernel := { s.kernel with console } } := by
  -- User code of a process is in no call, so no step gets there from a call but its answer.
  have away {s' : Computer} (sound : Sound img pending s') {c : Call} (going :
      pending s.kernel.procs.current = some c) : ¬ s'.InUser s.kernel.procs.current := by
    rintro ⟨mode, current⟩
    cases going.symm.trans (current ▸ (sound.user mode).2)
  cases step with
  | userCode user regs pc memory =>
    refine .inl ⟨_, .computes (.userCode user regs pc memory) rfl (fun _ => user) fun kernel => ?_⟩
    cases user.symm.trans kernel
  | trap user stval trapped => exact .inl ⟨_, .calls user stval trapped⟩
  | input console => exact .inr ⟨console, rfl⟩
  | handlerCode handler own sp =>
    refine .inl ⟨_, .computes (.handlerCode handler own sp) rfl id fun kernel user => ?_⟩
    cases kernel.symm.trans user.1
  | bootCode boot own top roomy =>
    refine .inl ⟨_, .computes (.bootCode boot own top roomy) rfl id fun kernel user => ?_⟩
    cases kernel.symm.trans user.1
  | answer handler ready answered => exact .inl ⟨_, .returns handler ready answered⟩
  | wait handler asks polled gave => exact .inl ⟨_, .waits handler asks polled gave⟩
  | exit handler asks ended moved switched =>
    obtain ⟨s₁, switched', sound, rfl⟩ := h.exit handler.1 ended moved
    obtain ⟨-, rfl⟩ := Action.eq_of_ok switched' switched
    obtain ⟨log, gave⟩ := Kernel.yieldNow_of_exitCurrent ended
    have quiet := Kernel.console_of_yieldNow gave
    obtain ⟨c, going, -⟩ := h.exists_of_asks handler asks
    refine .inl ⟨_, .computes (.exit handler asks ended moved switched) quiet (fun user => ?_)
      fun _ => away sound going⟩
    cases handler.1.symm.trans user
  | @create kernel machine image pid slot boot free made seeded =>
    obtain ⟨slot, root, m₁, m₂, log, -, -, -, -, rfl⟩ := Kernel.createProcess_eq_ok made
    refine .inl ⟨_, .computes (.create boot free made seeded) rfl id fun kernel user => ?_⟩
    cases kernel.symm.trans user.1
  | yield boot gave =>
    obtain ⟨s₁, gave', sound, passed⟩ := h.yieldNow boot.1
    obtain ⟨-, rfl⟩ := Action.eq_of_ok gave' gave
    refine .inl ⟨_, .computes (.yield boot gave) (Kernel.console_of_yieldNow passed)
      (fun user => ?_) fun _ user => ?_⟩
    · cases boot.1.symm.trans user
    · exact (sound.user user.1).1 (user.2.trans (h.current_of_boot boot))

/-- The turn does not pass from a process that puts a byte out. -/
theorem ne_putChar_of_moved (h : Sound img pending s) (idle : pending 0 = none)
    (step : Step img s s') (moved : s'.kernel.procs.current ≠ s.kernel.procs.current) {c : Call}
    (going : pending s.kernel.procs.current = some c) : c.regs .a3 ≠ Syscall.putChar := by
  have asked {id : UInt32} (handler : s.InHandler) (asks : s.Asks img id)
      (other : id ≠ Syscall.putChar) : c.regs .a3 ≠ Syscall.putChar := by
    obtain ⟨c', going', rfl⟩ := h.exists_of_asks handler asks
    cases going.symm.trans going'
    exact other
  cases step with
  | wait handler asks => exact asked handler asks (by decide)
  | exit handler asks => exact asked handler asks (by decide)
  | yield boot =>
    rw [h.current_of_boot boot, idle] at going
    cases going
  | trap user stval trapped =>
    obtain ⟨s₁, trapped', -, -, same⟩ := h.trap user stval
    obtain ⟨-, rfl⟩ := Action.eq_of_ok trapped' trapped
    exact absurd (congrArg (·.procs.current) same) moved
  | answer handler ready answered =>
    obtain ⟨-, c, -, finished⟩ := h.answerCall handler ready answered
    exact absurd finished.user.2 moved
  | create boot free made =>
    obtain ⟨slot', root, savedSp, -, -, procs⟩ := Kernel.procs_of_createProcess made
    exact absurd (by rw [procs]; rfl) moved
  | userCode => exact absurd rfl moved
  | input => exact absurd rfl moved
  | handlerCode => exact absurd rfl moved
  | bootCode => exact absurd rfl moved

end Sound

/-! ## Accounts -/

structure Moment where
  slot : Slot
  act : Act
  polls : Nat

/-- A run in which nothing but the polls changes what the console has to give. -/
inductive Runs (img : KernelImage) : List Moment → Computer → Computer → Prop where
  | none {s : Computer} : Runs img [] s s
  | next {moments : List Moment} {act : Act} {first s s' : Computer}
      (before : Runs img moments first s) (acts : Acts img act s s') :
      Runs img (moments ++ [⟨s.kernel.procs.current, act,
        s'.kernel.console.polls - s.kernel.console.polls⟩]) first s'

/-- A call that is going on: its registers, how often it gave up its turn, and its polls. -/
structure OpenCall where
  regs : RegisterFile
  yields : Nat
  polls : Nat

structure EndedCall extends OpenCall where
  slot : Slot
  back : RegisterFile

/-- The calls of a run; those that have ended are in the order in which they did. -/
structure Account where
  going : Slot → Option OpenCall
  ended : List EndedCall

namespace Account

def empty : Account := ⟨fun _ => none, []⟩

def add (a : Account) (m : Moment) : Account :=
  match m.act, a.going m.slot with
  | .calls regs, _ =>
    { a with going := Function.update a.going m.slot (some ⟨regs, 0, m.polls⟩) }
  | .waits, some c =>
    { a with
      going := Function.update a.going m.slot (some ⟨c.regs, c.yields + 1, c.polls + m.polls⟩) }
  | .returns back, some c =>
    { going := Function.update a.going m.slot none
      ended := a.ended ++ [⟨⟨c.regs, c.yields, c.polls + m.polls⟩, m.slot, back⟩] }
  | _, _ => a

def endedBy (a : Account) (id : UInt32) : List EndedCall := a.ended.filter (·.regs .a3 = id)

def put (a : Account) : Bytes := (a.endedBy Syscall.putChar).map fun c => (c.regs .a0).toUInt8

def got (a : Account) : List UInt32 := (a.endedBy Syscall.getChar).map fun c => c.back .a0

end Account

def account (moments : List Moment) : Account := moments.foldl .add .empty

/-- The bytes that processes asked to put out, in the order of their calls. -/
def asked (moments : List Moment) : Bytes :=
  moments.filterMap fun m =>
    match m.act with
    | .calls regs => if regs .a3 = Syscall.putChar then some (regs .a0).toUInt8 else none
    | _ => none

def unanswered : Option Call → Bytes
  | some c => if c.regs .a3 = Syscall.putChar then [(c.regs .a0).toUInt8] else []
  | none => []

/-- A call that waits polls once for every turn that it gives up; only a read of the console
waits. -/
structure OpenCall.Proper (c : OpenCall) : Prop where
  polls : c.polls = c.yields
  waits : c.regs .a3 ≠ Syscall.getChar → c.yields = 0

/-- A call that has ended polled once more if it was a read of the console, and left all registers
but its result. -/
structure EndedCall.Proper (c : EndedCall) : Prop where
  back : ∀ r ≠ .a0, c.back r = c.regs r
  get : c.regs .a3 = Syscall.getChar → c.polls = c.yields + 1
  other : c.regs .a3 ≠ Syscall.getChar → c.polls = 0 ∧ c.yields = 0

def Act.Polls (act : Act) : Prop :=
  act = .waits ∨ ∃ back, act = .returns back ∧ back .a3 = Syscall.getChar

structure Balanced (img : KernelImage) (pending : Pending) (first : Console)
    (moments : List Moment) (s : Computer) : Prop where
  sound : Sound img pending s
  idle : pending 0 = none
  going : ∀ slot, ((account moments).going slot).map (·.regs) = (pending slot).map (·.regs)
  /-- Only the process that runs can be about to put a byte out. -/
  elsewhere : ∀ slot ≠ s.kernel.procs.current, ∀ c, pending slot = some c →
    c.regs .a3 ≠ Syscall.putChar
  asked : asked moments = (account moments).put ++ unanswered (pending s.kernel.procs.current)
  output : s.kernel.console.output.toList = first.output.toList ++ (account moments).put
  input : ∃ bytes, first.input = bytes ++ s.kernel.console.input ∧
    (account moments).got = bytes.map (·.toUInt32)
  proper : ∀ slot c, (account moments).going slot = some c → c.Proper
  ended : ∀ c ∈ (account moments).ended, c.Proper
  polls : ∀ m ∈ moments, m.polls ≠ 0 → m.act.Polls

namespace Balanced
variable {first : Console} {moments : List Moment} {act : Act}

theorem of_boots (boots : Boots img s) :
    Balanced img (fun _ => none) s.kernel.console [] s where
  sound := .of_boots boots
  idle := rfl
  going _ := rfl
  elsewhere := nofun
  asked := rfl
  output := (List.append_nil _).symm
  input := ⟨[], rfl, rfl⟩
  proper := nofun
  ended := nofun
  polls := nofun

theorem account_append (m : Moment) : account (moments ++ [m]) = (account moments).add m := by
  simp [account]

/-- The call of the process that runs is in the account. -/
theorem exists_going (h : Balanced img pending first moments s) {slot : Slot} {c : Call}
    (going : pending slot = some c) :
    ∃ o, (account moments).going slot = some o ∧ o.regs = c.regs := by
  have same := h.going slot
  rw [going] at same
  simpa using same

/-- What the process that runs still has to put out does not change when the turn passes. -/
theorem unanswered_eq (h : Balanced img pending first moments s) (step : Step img s s') :
    unanswered (pending s'.kernel.procs.current) = unanswered (pending s.kernel.procs.current) := by
  by_cases moved : s'.kernel.procs.current = s.kernel.procs.current
  · rw [moved]
  have silent {slot : Slot} (other : ∀ c, pending slot = some c → c.regs .a3 ≠ Syscall.putChar) :
      unanswered (pending slot) = [] := by
    cases going : pending slot with
    | none => rfl
    | some c => exact if_neg (other c going)
  rw [silent (h.elsewhere _ moved),
    silent fun c going => h.sound.ne_putChar_of_moved h.idle step moved going]

/-- So the turn can pass, with the calls as they are. -/
theorem elsewhere_of_step (h : Balanced img pending first moments s) (step : Step img s s')
    (slot : Slot) (ne : slot ≠ s'.kernel.procs.current) (c : Call) (going : pending slot = some c) :
    c.regs .a3 ≠ Syscall.putChar := by
  by_cases here : slot = s.kernel.procs.current
  · subst here
    exact h.sound.ne_putChar_of_moved h.idle step (Ne.symm ne) going
  · exact h.elsewhere slot here c going

theorem asked_append (m : Moment) : Computer.asked (moments ++ [m]) =
    Computer.asked moments ++ Computer.asked [m] := List.filterMap_append

/-- A moment without polls is no read of the console. -/
theorem polls_append (h : Balanced img pending first moments s) {m : Moment}
    (last : m.polls ≠ 0 → m.act.Polls) (n : Moment) (mem : n ∈ moments ++ [m])
    (polls : n.polls ≠ 0) : n.act.Polls := by
  rcases List.mem_append.1 mem with before | here
  · exact h.polls n before polls
  · cases List.mem_singleton.1 here
    exact last polls

theorem computes (h : Balanced img pending first moments s) (step : Step img s s')
    (console : s'.kernel.console = s.kernel.console) (user : s.mode = .user → s'.mode = .user)
    (kernel : s.mode = .kernel → ¬ s'.InUser s.kernel.procs.current) (n : Nat) (silent : n = 0) :
    Balanced img pending first (moments ++ [⟨s.kernel.procs.current, .computes, n⟩]) s' := by
  have sound : Sound img pending s' := by
    obtain ⟨pending', sound, goes⟩ := h.sound.step step
    cases goes with
    | on => exact sound
    | begins before after => cases (user before).symm.trans after
    | ends going finished =>
      refine absurd finished.user (kernel ?_)
      cases mode : s.mode with
      | kernel => rfl
      | user => cases (h.sound.user mode).2.symm.trans going
  have same : account (moments ++ [⟨s.kernel.procs.current, .computes, n⟩]) = account moments := by
    rw [account_append]
    rfl
  constructor
  · exact sound
  · exact h.idle
  · exact same ▸ h.going
  · exact h.elsewhere_of_step step
  · rw [asked_append, same, h.unanswered_eq step, h.asked]
    simp [Computer.asked]
  · rw [same, console, h.output]
  · rw [same, console]
    exact h.input
  · exact same ▸ h.proper
  · exact same ▸ h.ended
  · exact h.polls_append fun polls => absurd silent polls

/-- Calls that agree in their registers still do when one of them changes. -/
theorem going_update {f : Slot → Option OpenCall} {g : Pending}
    (same : ∀ slot, (f slot).map (·.regs) = (g slot).map (·.regs)) (slot₀ : Slot)
    {o : Option OpenCall} {c : Option Call} (new : o.map (·.regs) = c.map (·.regs)) (slot : Slot) :
    (Function.update f slot₀ o slot).map (·.regs) =
      (Function.update g slot₀ c slot).map (·.regs) := by
  by_cases here : slot = slot₀
  · subst here
    simpa using new
  · simpa [here] using same slot

/-- The call of the process that runs becomes another one, or none. -/
theorem proper_update (h : Balanced img pending first moments s) (slot₀ : Slot)
    {o : Option OpenCall} (new : ∀ c, o = some c → c.Proper) (slot : Slot) (c : OpenCall)
    (going : Function.update (account moments).going slot₀ o slot = some c) : c.Proper :=
  (Function.forall_update_iff (account moments).going fun _ o => ∀ c, o = some c → c.Proper).2
    ⟨new, fun slot _ => h.proper slot⟩ slot c going

/-- The call that begins is that of the process that runs. -/
theorem calls (h : Balanced img pending first moments s) (user : s.mode = .user) {stval : UInt32}
    (trapped : trap img stval s = .ok () s') (n : Nat) (silent : n = 0) :
    Balanced img (Function.update pending s.kernel.procs.current (some ⟨s.machine.regs, s.pc⟩))
      first (moments ++ [⟨s.kernel.procs.current, .calls s.machine.regs, n⟩]) s' := by
  obtain ⟨s₁, trapped', sound, -, same⟩ := h.sound.trap user stval
  obtain ⟨-, rfl⟩ := Action.eq_of_ok trapped' trapped
  obtain ⟨process, idle⟩ := h.sound.user user
  have next : account (moments ++ [⟨s.kernel.procs.current, .calls s.machine.regs, n⟩]) =
      ⟨Function.update (account moments).going s.kernel.procs.current
        (some ⟨s.machine.regs, 0, n⟩), (account moments).ended⟩ := by
    rw [account_append]
    rfl
  have put : (account (moments ++ [⟨s.kernel.procs.current, .calls s.machine.regs, n⟩])).put =
      (account moments).put := by rw [next]; rfl
  constructor
  · exact sound
  · rw [Function.update_of_ne process.symm]
    exact h.idle
  · rw [next]
    exact going_update h.going _ rfl
  · intro slot ne c going
    rw [same] at ne
    rw [Function.update_of_ne ne] at going
    exact h.elsewhere slot ne c going
  · rw [asked_append, put, same, Function.update_self, h.asked, idle]
    by_cases id : s.machine.regs .a3 = Syscall.putChar <;> simp [Computer.asked, unanswered, id]
  · rw [put, same, h.output]
  · rw [next, same]
    exact h.input
  · rw [next]
    refine h.proper_update _ fun c new => ?_
    cases new
    exact ⟨silent, fun _ => rfl⟩
  · rw [next]
    exact h.ended
  · exact h.polls_append fun polls => absurd silent polls

/-- A read of the console that finds nothing is one poll and one turn given up. -/
theorem waits (h : Balanced img pending first moments s) {kernel : Kernel} (handler : s.InHandler)
    (asks : s.Asks img Syscall.getChar)
    (polled : Kernel.onConsole Console.poll s.kernel = .ok none kernel)
    (gave : yieldNow img { s with kernel } = .ok () s') (n : Nat)
    (once : s'.kernel.console.polls - s.kernel.console.polls = n) :
    Balanced img pending first (moments ++ [⟨s.kernel.procs.current, .waits, n⟩]) s' := by
  have step : Step img s s' := .wait handler asks polled gave
  obtain ⟨c, going, id⟩ := h.sound.exists_of_asks handler asks
  obtain ⟨o, open', regs⟩ := h.exists_going going
  obtain ⟨console, found, rfl⟩ := Action.within_eq_ok.1 polled
  obtain ⟨line, count, output⟩ := Console.polled_of_poll found
  have polls : Sound img pending { s with kernel := { s.kernel with console } } :=
    h.sound.elsewhere rfl
  obtain ⟨s₁, gave', sound, passed⟩ := polls.yieldNow handler.1
  obtain ⟨-, rfl⟩ := Action.eq_of_ok gave' gave
  have same : s₁.kernel.console = console := Kernel.console_of_yieldNow passed
  have single : n = 1 := by
    rw [← once, same, count]
    omega
  have next : account (moments ++ [⟨s.kernel.procs.current, .waits, n⟩]) =
      ⟨Function.update (account moments).going s.kernel.procs.current
        (some ⟨o.regs, o.yields + 1, o.polls + n⟩), (account moments).ended⟩ := by
    rw [account_append]
    simp only [Account.add, open']
  have put : (account (moments ++ [⟨s.kernel.procs.current, .waits, n⟩])).put =
      (account moments).put := by rw [next]; rfl
  constructor
  · exact sound
  · exact h.idle
  · have kept : Function.update pending s.kernel.procs.current (some c) = pending := by
      rw [← going, Function.update_eq_self]
    rw [next, ← kept]
    exact going_update h.going _ (by simpa using regs)
  · exact h.elsewhere_of_step step
  · rw [asked_append, put, h.unanswered_eq step, h.asked]
    simp [Computer.asked]
  · rw [put, same, output, h.output]
  · obtain ⟨bytes, consumed, results⟩ := h.input
    refine ⟨bytes, ?_, by rw [next]; exact results⟩
    rw [consumed, same, Console.input_eq, Console.input_eq, line, List.reduceOption_cons_of_none]
  · rw [next]
    refine h.proper_update _ fun c new => ?_
    cases new
    have before := h.proper _ o open'
    exact ⟨by simp only [before.polls, single], fun other => absurd (regs ▸ id) other⟩
  · rw [next]
    exact h.ended
  · exact h.polls_append fun _ => .inl rfl

/-- The call that is answered is that of the process that runs. -/
theorem returns (h : Balanced img pending first moments s) (handler : s.InHandler)
    (ready : s.Asks img Syscall.getChar → s.kernel.console.emptyPolls = 0)
    (answered : answerCall img s = .ok () s') (n : Nat)
    (made : s'.kernel.console.polls - s.kernel.console.polls = n) :
    Balanced img (Function.update pending s.kernel.procs.current none) first
      (moments ++ [⟨s.kernel.procs.current, .returns s'.machine.regs, n⟩]) s' := by
  obtain ⟨sound, c, going, finished⟩ := h.sound.answerCall handler ready answered
  obtain ⟨o, open', regs⟩ := h.exists_going going
  have current : s'.kernel.procs.current = s.kernel.procs.current := finished.user.2
  have back : s'.machine.regs .a3 = c.regs .a3 := finished.regs _ nofun
  have console := finished.result.atConsole
  have polls : n = if c.regs .a3 = Syscall.getChar then 1 else 0 := by
    rw [← made, console.polls, Nat.add_sub_cancel_left]
  have next : account (moments ++ [⟨s.kernel.procs.current, .returns s'.machine.regs, n⟩]) =
      ⟨Function.update (account moments).going s.kernel.procs.current none,
        (account moments).ended ++
          [⟨⟨c.regs, o.yields, o.polls + n⟩, s.kernel.procs.current, s'.machine.regs⟩]⟩ := by
    rw [account_append]
    simp only [Account.add, open', regs]
  have put : (account (moments ++ [⟨s.kernel.procs.current, .returns s'.machine.regs, n⟩])).put =
      (account moments).put ++ unanswered (some c) := by
    rw [next, unanswered]
    by_cases id : c.regs .a3 = Syscall.putChar <;> simp [Account.put, Account.endedBy, id]
  have got : (account (moments ++ [⟨s.kernel.procs.current, .returns s'.machine.regs, n⟩])).got =
      (account moments).got ++
        if c.regs .a3 = Syscall.getChar then [s'.machine.regs .a0] else [] := by
    rw [next]
    by_cases id : c.regs .a3 = Syscall.getChar <;> simp [Account.got, Account.endedBy, id]
  constructor
  · exact sound
  · rw [Function.update_of_ne (h.sound.process_of_handler handler).symm]
    exact h.idle
  · rw [next]
    exact going_update h.going _ rfl
  · intro slot ne c going
    rw [current] at ne
    rw [Function.update_of_ne ne] at going
    exact h.elsewhere slot ne c going
  · rw [asked_append, put, current, Function.update_self, h.asked, going]
    simp [Computer.asked, unanswered]
  · rw [put, console.output, h.output, List.append_assoc]
    rfl
  · obtain ⟨bytes, consumed, results⟩ := h.input
    obtain ⟨more, taken, result⟩ := console.input
    exact ⟨bytes ++ more, by rw [consumed, taken, List.append_assoc],
      by rw [got, results, List.map_append, result]⟩
  · rw [next]
    exact h.proper_update _ nofun
  · rw [next]
    refine List.forall_mem_append.2 ⟨h.ended, List.forall_mem_singleton.2 ?_⟩
    obtain ⟨waited, other⟩ := h.proper _ o open'
    rw [regs] at other
    refine ⟨finished.regs, fun get => ?_, fun get => ?_⟩
    · simp only [polls, if_pos get, waited]
    · simp only [polls, if_neg get, waited, other get, and_self]
  · refine h.polls_append fun some => .inr ⟨_, rfl, ?_⟩
    rw [back]
    by_contra other
    exact some (polls.trans (if_neg other))

theorem next (h : Balanced img pending first moments s) (acts : Acts img act s s') :
    ∃ pending', Balanced img pending' first (moments ++ [⟨s.kernel.procs.current, act,
      s'.kernel.console.polls - s.kernel.console.polls⟩]) s' := by
  cases acts with
  | calls user stval trapped =>
    obtain ⟨s₁, trapped', -, -, same⟩ := h.sound.trap user stval
    obtain ⟨-, rfl⟩ := Action.eq_of_ok trapped' trapped
    exact ⟨_, h.calls user trapped _ (by rw [same, Nat.sub_self])⟩
  | waits handler asks polled gave => exact ⟨_, h.waits handler asks polled gave _ rfl⟩
  | returns handler ready answered => exact ⟨_, h.returns handler ready answered _ rfl⟩
  | computes step console user kernel =>
    exact ⟨_, h.computes step console user kernel _ (by rw [console, Nat.sub_self])⟩

theorem of_runs {first : Computer} (boots : Boots img first) (run : Runs img moments first s) :
    ∃ pending, Balanced img pending first.kernel.console moments s := by
  induction run with
  | none => exact ⟨_, .of_boots boots⟩
  | next before acts ih =>
    obtain ⟨pending, balanced⟩ := ih boots
    exact balanced.next acts

end Balanced

/-- Nothing that goes over the console is lost, doubled or moved, in any run from the start of the
machine, whatever the console has to give and when. The bytes that have gone out are those of the
calls that put one out and have ended, in order; this is the order in which they were made, and at
most the last of them has not ended. The results of the calls that read the console and have ended
are the bytes that have come in, in order, each in the registers of its own call. A read polls once
for every turn that it gave up and once more, and nothing else polls. -/
theorem console_streams {first : Computer} {moments : List Moment} (boots : Boots img first)
    (run : Runs img moments first s) :
    s.kernel.console.output.toList =
        first.kernel.console.output.toList ++ (account moments).put ∧
      (∃ last, asked moments = (account moments).put ++ last ∧ last.length ≤ 1 ∧
        (s.mode = .user → last = [])) ∧
      (∃ bytes, first.kernel.console.input = bytes ++ s.kernel.console.input ∧
        (account moments).got = bytes.map (·.toUInt32)) ∧
      (∀ c ∈ (account moments).ended, c.Proper) ∧
      (∀ slot c, (account moments).going slot = some c → c.Proper) ∧
      (∀ m ∈ moments, m.polls ≠ 0 → m.act.Polls) ∧
      ∀ s', Step img s s' → (∃ act, Acts img act s s') ∨
        ∃ console, s' = { s with kernel := { s.kernel with console } } := by
  obtain ⟨pending, h⟩ := Balanced.of_runs boots run
  refine ⟨h.output, ⟨_, h.asked, ?_, fun user => ?_⟩, h.input, h.ended, h.proper, h.polls,
    fun _ => h.sound.acts_of_step⟩
  · cases pending s.kernel.procs.current with
    | none => exact Nat.zero_le _
    | some c =>
      rw [unanswered]
      split <;> simp
  · rw [(h.sound.user user).2]
    rfl

/-! ## Two readers -/

theorem acts_of_userCode (user : s.mode = .user) (regs : RegisterFile) (pc : UInt32) :
    Acts img .computes s { s with machine := { s.machine with regs }, pc } :=
  .computes (.userCode user regs pc s.kernel.memory) rfl (fun _ => user) fun kernel => by
    cases user.symm.trans kernel

theorem acts_of_boot (step : Step img s s') (quiet : s.mode = .kernel ∧
    s'.kernel.console = s.kernel.console ∧ ¬ s'.InUser s.kernel.procs.current) :
    Acts img .computes s s' :=
  .computes step quiet.2.1 (fun user => by cases quiet.1.symm.trans user) fun _ => quiet.2.2

def answered (s : Computer) : Computer := (answerCall smallImage).finalState s

theorem acts_answered (ready : s.InHandler ∧
    (smallImage.keptTrap.answersWith (fun (_, frame, _) =>
      frame .a3 ≠ Syscall.getChar || s.kernel.console.emptyPolls = 0) s.machine = true) ∧
    (answerCall smallImage).answers s = true) :
    Acts smallImage (.returns (answered s).machine.regs) s (answered s) := by
  obtain ⟨handler, kept, answers⟩ := ready
  obtain ⟨⟨⟩, done⟩ := Action.exists_ok_of_answers answers
  obtain ⟨⟨addr, frame, cause⟩, kept, ready⟩ := Action.exists_ok_of_answersWith kept
  refine .returns handler (fun ⟨_, frame', _, _, kept', _, id⟩ => ?_) done
  obtain ⟨same, -⟩ := Action.eq_of_ok kept kept'
  simp only [Prod.mk.injEq] at same
  simpa [same.2.1, id] using ready

def userPuts (word pc : UInt32) (s : Computer) : Computer :=
  { s with
    machine := { s.machine with regs := fun r => if r = .a3 then Syscall.putChar else word }
    pc }

def scriptedKernel : Kernel :=
  { Kernel.roomyKernel with console := ⟨2, [⟨0x41, 0⟩], 0, .empty⟩ }

def scripted : Computer :=
  { booted with kernel := Kernel.spawnIdle.finalState scriptedKernel }

/-- The first process is about to put a byte out. -/
def putting : Computer :=
  userPuts 0x48 0x01000040 ((yieldNow smallImage).finalState (created (created scripted)))

def bothWait : Computer :=
  waited (trapped (userAsks 22 0x01000080
    (waited (trapped (userAsks 11 0x01000044 (answered (trapped putting)))))))

theorem boots_scripted : Boots smallImage scripted := by
  obtain ⟨pid, spawned⟩ : ∃ pid, Kernel.spawnIdle scriptedKernel =
      .ok pid (Kernel.spawnIdle.finalState scriptedKernel) :=
    Action.exists_ok_of_answers (by decide +kernel)
  have roomy : smallImage.Roomy .boot 0x80301000 := by
    unfold KernelImage.Roomy
    decide
  have kernel : scripted.kernel = Kernel.spawnIdle.finalState scriptedKernel := by rw [scripted]
  exact ⟨rfl, ⟨scriptedKernel, pid, rfl, kernel ▸ spawned⟩, rfl, rfl, _, rfl, roomy⟩

/-- One process puts a byte out and waits for one, and so does another before the first one gets
it. -/
theorem console_streams_bothWait : ∃ moments, Boots smallImage scripted ∧
    Runs smallImage moments scripted (answered bothWait) ∧ (account moments).put = [0x48] ∧
    (account moments).got = [0x41] ∧ ∀ c ∈ (account moments).ended, c.Proper := by
  have first : Step smallImage scripted (created scripted) := step_created 1 (by decide +kernel)
  have second : Step smallImage (created scripted) (created (created scripted)) :=
    step_created 2 (by decide +kernel)
  obtain ⟨boot, answers⟩ : (created (created scripted)).InBoot ∧
      (yieldNow smallImage).answers (created (created scripted)) = true := by decide +kernel
  obtain ⟨⟨⟩, gave⟩ := Action.exists_ok_of_answers answers
  have run := ((((((((((((Runs.none.next
    (acts_of_boot first (by decide +kernel))).next
    (acts_of_boot second (by decide +kernel))).next
    (acts_of_boot (.yield boot gave) (by decide +kernel))).next
    (acts_of_userCode (by decide +kernel) _ 0x01000040)).next
    (acts_trapped (s := putting) (by decide +kernel))).next
    (acts_answered (by decide +kernel))).next
    (acts_of_userCode (by decide +kernel) _ 0x01000044)).next
    (acts_trapped (s := userAsks 11 0x01000044 (answered (trapped putting)))
      (by decide +kernel))).next
    (acts_waited (by decide +kernel))).next
    (acts_of_userCode (by decide +kernel) _ 0x01000080)).next
    (acts_trapped (s := userAsks 22 0x01000080 (waited (trapped
      (userAsks 11 0x01000044 (answered (trapped putting)))))) (by decide +kernel))).next
    (acts_waited (by decide +kernel))).next
    (acts_answered (s := bothWait) (by decide +kernel))
  obtain ⟨output, -, ⟨bytes, input, got⟩, ended, -⟩ := console_streams boots_scripted run
  obtain ⟨before, after, given, left⟩ : scripted.kernel.console.output.toList = [] ∧
      (answered bothWait).kernel.console.output.toList = [0x48] ∧
      scripted.kernel.console.input = [0x41] ∧
      (answered bothWait).kernel.console.input = [] := by decide +kernel
  rw [before, after, List.nil_append] at output
  rw [given, left, List.append_nil] at input
  exact ⟨_, boots_scripted, run, output.symm, by rw [got, ← input]; rfl, ended⟩

end Riscv.Computer

end PocketKernel
