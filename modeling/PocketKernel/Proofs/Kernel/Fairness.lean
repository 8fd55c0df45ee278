import Mathlib
import PocketKernel.Proofs.Kernel.Lifecycle
import PocketKernel.Proofs.Process.Rotation

/-!
# Every process has its turn

A `Course` is a continuation of a run, with the state after every event, and `turns` are the slots
that its yields gave the core to. Main statement: `bounded_waiting`. That a slot is reached in time
rests on its distance in the cycle, which no creation and no exit changes and which every yield
lessens.
-/
namespace PocketKernel.Kernel
open ProcessTable
variable {mayExit : Kernel → Prop} {k k' : Kernel}

/-- What happens from a state on, with the state after each event. -/
inductive Course (mayExit : Kernel → Prop) : Kernel → List (Event × Kernel) → Prop where
  | nil {k : Kernel} : Course mayExit k []
  | cons {k k' : Kernel} {event : Event} {rest : List (Event × Kernel)}
      (happens : Happens mayExit event k k') (course : Course mayExit k' rest) :
      Course mayExit k ((event, k') :: rest)

def Event.yields : Event → Bool
  | .yielded | .exited => true
  | .created | .elsewhere => false

/-- The slots that the yields of a course made the current one. -/
def turns : List (Event × Kernel) → List Slot
  | [] => []
  | (event, k) :: rest => if event.yields then k.procs.current :: turns rest else turns rest

/-- The process of the slot can run and is not the idle one. -/
def Waits (k : Kernel) (slot : Slot) : Prop :=
  (k.procs.process slot).state = .runnable ∧ k.procs.idle ≠ some slot

theorem waits_iff (h : k.procs.Numbered) {slot : Slot} :
    Waits k slot ↔ (k.procs.process slot).isReady = true := h.isReady_iff.symm

/-- The slots that can run, without the idle one, in the order in which yields come to them. -/
theorem mem_queue_iff (h : k.procs.Numbered) {slot : Slot} :
    slot ∈ k.procs.queue ↔ Waits k slot := by
  rw [waits_iff h, queue, List.mem_filter]
  exact and_iff_right (k.procs.mem_candidates slot)

theorem current_of_happens {event : Event} (happens : Happens mayExit event k k') :
    if event.yields then
      ∃ k₁, k₁.procs.current = k.procs.current ∧ yieldNow k₁ = .ok () k'
    else k'.procs.current = k.procs.current := by
  cases happens with
  | create made =>
    obtain ⟨slot, root, savedSp, -, -, procs⟩ := procs_of_createProcess made
    rw [procs]
    rfl
  | yield gave => exact ⟨k, rfl, gave⟩
  | exit _ ended =>
    obtain ⟨log, gave⟩ := yieldNow_of_exitCurrent ended
    exact ⟨{ k with log, procs := k.procs.exitCurrent }, rfl, gave⟩
  | elsewhere procs => exact congrArg ProcessTable.current procs

/-! ## A slot that stays ready -/

section Waiting
variable {j : Slot}

/-- A slot that is ready after a yield was picked or has come nearer. -/
theorem turn_of_yieldNow (gave : yieldNow k = .ok () k')
    (ready : (k'.procs.process j).isReady = true) :
    (k'.procs.process k'.procs.current).isReady = true ∧
      (k'.procs.current = j ∨ k'.procs.distance j < k.procs.distance j) := by
  obtain ⟨same, current⟩ := sameProcesses_of_yieldNow gave
  rw [same.isReady] at ready
  refine ⟨?_, ?_⟩
  · rw [same.isReady, current]
    exact isReady_pickNext ready
  · rw [or_iff_not_imp_left, current]
    exact distance_lt ready current

theorem turns_of_ready {course : List (Event × Kernel)} (run : Course mayExit k course)
    (ready : ∀ p ∈ course, (p.2.procs.process j).isReady = true) {bound : Nat}
    (near : k.procs.distance j < bound) (long : bound ≤ (turns course).length) :
    j ∈ (turns course).take bound := by
  induction run generalizing bound with
  | nil =>
    simp only [turns, List.length_nil, Nat.le_zero] at long
    omega
  | @cons k k' event rest happens course ih =>
    obtain ⟨first, later⟩ := List.forall_mem_cons.1 ready
    have current := current_of_happens happens
    cases yields : event.yields with
    | false =>
      rw [yields, if_neg Bool.false_ne_true] at current
      have near' : k'.procs.distance j < bound := by
        rwa [distance, candidates, current]
      simp only [turns, yields, Bool.false_eq_true, if_false] at long ⊢
      exact ih later near' long
    | true =>
      rw [yields, if_pos rfl] at current
      obtain ⟨k₁, before, gave⟩ := current
      simp only [turns, yields, if_true, List.length_cons] at long ⊢
      obtain ⟨bound, rfl⟩ : ∃ less, bound = less + 1 := ⟨bound - 1, by omega⟩
      rw [List.take_succ_cons, List.mem_cons]
      rcases (turn_of_yieldNow gave first).2 with here | nearer
      · exact .inl here.symm
      · have same : k₁.procs.distance j = k.procs.distance j := by
          rw [distance, candidates, before, ← candidates, ← distance]
        exact .inr (ih later (by omega) (by omega))

/-- As long as a slot is ready, the idle process has no turn. -/
theorem ne_idle_of_mem_turns {course : List (Event × Kernel)} (h : k.procs.Numbered)
    (run : Course mayExit k course)
    (ready : ∀ p ∈ course, (p.2.procs.process j).isReady = true) :
    ∀ slot ∈ turns course, k.procs.idle ≠ some slot := by
  induction run with
  | nil => nofun
  | @cons k k' event rest happens course ih =>
    obtain ⟨first, later⟩ := List.forall_mem_cons.1 ready
    have numbered := numbered_of_happens h happens
    have idle : k'.procs.idle = k.procs.idle := numbered.idle.trans h.idle.symm
    have others := ih numbered later
    rw [idle] at others
    have current := current_of_happens happens
    cases yields : event.yields with
    | false => simpa only [turns, yields, Bool.false_eq_true, if_false] using others
    | true =>
      rw [yields, if_pos rfl] at current
      obtain ⟨k₁, -, gave⟩ := current
      have busy := (numbered.isReady_iff.1 (turn_of_yieldNow gave first).1).2
      rw [idle] at busy
      simp only [turns, yields, if_true, List.forall_mem_cons]
      exact ⟨busy, others⟩

theorem waits_of_course {course : List (Event × Kernel)} (h : k.procs.Numbered)
    (run : Course mayExit k course) (idle : k.procs.idle ≠ some j)
    (runnable : ∀ p ∈ course, (p.2.procs.process j).state = .runnable) :
    ∀ p ∈ course, (p.2.procs.process j).isReady = true := by
  induction run with
  | nil => nofun
  | @cons k k' event rest happens course ih =>
    obtain ⟨first, later⟩ := List.forall_mem_cons.1 runnable
    have numbered := numbered_of_happens h happens
    rw [h.idle, ← numbered.idle] at idle
    exact List.forall_mem_cons.2 ⟨numbered.isReady_iff.2 ⟨first, idle⟩, ih numbered idle later⟩

end Waiting

/-! ## Turns without exits and creations -/

/-- Yields alone take the queue from its front. -/
theorem turns_eq_take {course : List (Event × Kernel)} (run : Course mayExit k course)
    (plain : ∀ p ∈ course, p.1 = .yielded ∨ p.1 = .elsewhere)
    (short : (turns course).length ≤ k.procs.queue.length) :
    turns course = k.procs.queue.take (turns course).length := by
  induction run with
  | nil => rfl
  | @cons k k' event rest happens course ih =>
    obtain ⟨first, later⟩ := List.forall_mem_cons.1 plain
    cases happens with
    | create => simp at first
    | exit => simp at first
    | elsewhere procs =>
      rw [procs] at ih
      exact ih later short
    | yield gave =>
      obtain ⟨same, current⟩ := sameProcesses_of_yieldNow gave
      change (turns rest).length + 1 ≤ k.procs.queue.length at short
      obtain ⟨slot, others, queue⟩ := List.exists_cons_of_length_pos (Nat.zero_lt_of_lt short)
      rw [pickNext_eq_head queue] at current
      rw [queue, List.length_cons, Nat.succ_le_succ_iff] at short
      rw [queue_rotate queue same current] at ih
      have front := ih later (short.trans (by simp))
      rw [List.take_append_of_le_length short] at front
      calc turns ((.yielded, k') :: rest) = slot :: turns rest := by rw [turns, ← current]; rfl
        _ = k.procs.queue.take ((turns rest).length + 1) := by
          rw [queue, List.take_succ_cons, ← front]

/-- From any state of a run that begins with the idle process, on any continuation: a process that
can run all the time has its turn among the first turns, as many as there are slots, and the idle
process has none. Where only yields pass the turn, the waiting slots have their turns one after the
other, each once, in the cyclic order of the slots. -/
theorem bounded_waiting {k₀ k₁ k : Kernel} {idlePid : UInt32} (fresh : k₀.procs = .empty)
    (spawned : spawnIdle k₀ = .ok idlePid k₁) (run : Schedule mayExit k₁ k) :
    (∀ j, Waits k j → ∀ course, Course mayExit k course →
      (∀ p ∈ course, (p.2.procs.process j).state = .runnable) →
        (∀ slot ∈ turns course, k.procs.idle ≠ some slot) ∧
          (slotCount ≤ (turns course).length → j ∈ (turns course).take slotCount)) ∧
      ∀ course, Course mayExit k course →
        (∀ p ∈ course, p.1 = .yielded ∨ p.1 = .elsewhere) →
        ∀ waiting : Finset Slot, (∀ slot, slot ∈ waiting ↔ Waits k slot) →
          (turns course).length = waiting.card →
            (turns course).Nodup ∧ (turns course).Sublist k.procs.candidates ∧
              (turns course).toFinset = waiting := by
  obtain ⟨begun, -⟩ := begun_of_spawnIdle fresh spawned
  have numbered : k.procs.Numbered := numbered_of_steps begun.numbered (steps_of_schedule run)
  refine ⟨fun j waits course after runnable => ?_, fun course after plain waiting all length => ?_⟩
  · have ready := waits_of_course numbered after waits.2 runnable
    exact ⟨ne_idle_of_mem_turns numbered after ready,
      turns_of_ready after ready (distance_lt_slotCount _ j)⟩
  · have queue : k.procs.queue.toFinset = waiting := by
      ext slot
      rw [List.mem_toFinset, mem_queue_iff numbered, all]
    have nodup : k.procs.queue.Nodup := k.procs.nodup_candidates.filter _
    rw [← queue, List.toFinset_card_of_nodup nodup] at length
    have turns := turns_eq_take after plain length.le
    rw [length, List.take_length] at turns
    rw [turns]
    exact ⟨nodup, List.filter_sublist, queue⟩

def roomyKernel : Kernel := start ⟨0x80200000, 0x80200000, 0x80209000⟩ (Disk.blank 0) 7

def roomyIdle : Kernel := Action.finalState spawnIdle roomyKernel

def roomyFirst : Kernel := Action.finalState (createProcess []) roomyIdle

def roomySecond : Kernel := Action.finalState (createProcess []) roomyFirst

theorem run_roomySecond (mayExit : Kernel → Prop) :
    ∃ idlePid, spawnIdle roomyKernel = .ok idlePid roomyIdle ∧
      Schedule mayExit roomyIdle roomySecond := by
  obtain ⟨idlePid, spawned⟩ : ∃ pid, spawnIdle roomyKernel = .ok pid roomyIdle :=
    Action.exists_ok_of_answers (by decide +kernel)
  obtain ⟨_, made₁⟩ : ∃ pid, createProcess [] roomyIdle = .ok pid roomyFirst :=
    Action.exists_ok_of_answers (by decide +kernel)
  obtain ⟨_, made₂⟩ : ∃ pid, createProcess [] roomyFirst = .ok pid roomySecond :=
    Action.exists_ok_of_answers (by decide +kernel)
  exact ⟨idlePid, spawned, ((Schedule.refl _).step (.create made₁)).step (.create made₂)⟩

def yielding : Nat → Kernel → List (Event × Kernel)
  | 0, _ => []
  | count + 1, k =>
    let next := Action.finalState yieldNow k
    (.yielded, next) :: yielding count next

theorem course_yielding (mayExit : Kernel → Prop) (count : Nat) (k : Kernel) :
    Course mayExit k (yielding count k) := by
  induction count generalizing k with
  | zero => exact .nil
  | succ count ih =>
    obtain ⟨k', gave⟩ := exists_yieldNow_eq_ok k
    refine .cons (.yield ?_) (ih _)
    rw [Action.finalState_of_ok gave]
    exact gave

/-- Eight yields of two processes. -/
theorem bounded_waiting_roomySecond :
    ∃ idlePid, roomyKernel.procs = .empty ∧ spawnIdle roomyKernel = .ok idlePid roomyIdle ∧
      Schedule (fun _ => True) roomyIdle roomySecond ∧ Waits roomySecond 2 ∧
      Course (fun _ => True) roomySecond (yielding 8 roomySecond) ∧
      (∀ p ∈ yielding 8 roomySecond, (p.2.procs.process 2).state = .runnable) ∧
      (∀ slot ∈ turns (yielding 8 roomySecond), roomySecond.procs.idle ≠ some slot) ∧
      2 ∈ (turns (yielding 8 roomySecond)).take slotCount ∧
      (∀ slot, slot ∈ ({1, 2} : Finset Slot) ↔ Waits roomySecond slot) ∧
      (turns (yielding 2 roomySecond)).toFinset = {1, 2} := by
  obtain ⟨idlePid, spawned, run⟩ := run_roomySecond fun _ => True
  have fresh : roomyKernel.procs = .empty := rfl
  have waits : ∀ slot, slot ∈ ({1, 2} : Finset Slot) ↔ Waits roomySecond slot := by
    unfold Waits
    decide +kernel
  have eight := course_yielding (fun _ => True) 8 roomySecond
  have two := course_yielding (fun _ => True) 2 roomySecond
  have runnable : ∀ p ∈ yielding 8 roomySecond, (p.2.procs.process 2).state = .runnable := by
    decide +kernel
  have long : slotCount ≤ (turns (yielding 8 roomySecond)).length := by decide +kernel
  have plain : ∀ p ∈ yielding 2 roomySecond, p.1 = .yielded ∨ p.1 = .elsewhere := by
    decide +kernel
  have length : (turns (yielding 2 roomySecond)).length = ({1, 2} : Finset Slot).card := by
    decide +kernel
  obtain ⟨waiting, cyclic⟩ := bounded_waiting fresh spawned run
  have waits₂ : Waits roomySecond 2 := (waits 2).1 (by decide)
  obtain ⟨busy, reached⟩ := waiting 2 waits₂ _ eight runnable
  exact ⟨idlePid, fresh, spawned, run, waits₂, eight, runnable, busy, reached long, waits,
    (cyclic _ two plain {1, 2} waits length).2.2⟩

end PocketKernel.Kernel
