import Mathlib
import PocketKernel.Proofs.Process.Numbering

/-!
# The cycle of the slots

A yield looks at the slots in cyclic order, beginning behind the current one. When it picks a slot,
the part of the cycle up to that slot moves behind the rest (`candidates_rotate`). So the ready
slots wait in a queue whose head goes to the back at each yield (`queue_rotate`), and a ready slot
that is passed over has come nearer to the front of the cycle (`distance_lt`), whatever became of
the others.
-/
namespace PocketKernel.ProcessTable
variable {t t' : ProcessTable} {slot : Slot}

/-- The cycle begins anew behind each of its slots. -/
theorem after_rotate : ∀ (slot : Slot) (i : Fin slotCount),
    ((List.range slotCount).map fun n => after (after slot (i.val + 1)) (n + 1)) =
      ((List.range slotCount).map fun n => after slot (n + 1)).rotate (i.val + 1) := by
  decide

theorem candidates_rotate {before behind : List Slot}
    (split : t.candidates = before ++ slot :: behind)
    (current : t'.current = slot) : t'.candidates = behind ++ before ++ [slot] := by
  have short : before.length < slotCount := by
    have length := congrArg List.length split
    simp only [candidates, List.length_map, List.length_range, List.length_append,
      List.length_cons] at length
    omega
  have here : after t.current (before.length + 1) = slot := by
    have found : t.candidates[before.length]? = some slot := by rw [split]; simp
    simpa [candidates, short] using found
  have rotated := after_rotate t.current ⟨before.length, short⟩
  rw [here, ← current] at rotated
  calc t'.candidates = t.candidates.rotate (before.length + 1) := rotated
    _ = ((before ++ [slot]) ++ behind).rotate (before ++ [slot]).length := by
      rw [split, List.length_append, List.length_singleton, List.append_assoc,
        List.singleton_append]
    _ = behind ++ before ++ [slot] := by
      rw [List.rotate_append_length_eq, List.append_assoc]

theorem mem_candidates (t : ProcessTable) (slot : Slot) : slot ∈ t.candidates := by
  have all : ∀ current slot : Slot,
      slot ∈ (List.range slotCount).map fun i => after current (i + 1) := by decide
  exact all t.current slot

theorem nodup_candidates (t : ProcessTable) : t.candidates.Nodup := by
  have all : ∀ current : Slot,
      ((List.range slotCount).map fun i => after current (i + 1)).Nodup := by decide
  exact all t.current

/-- The ready slots in the order in which yields come to them. -/
def queue (t : ProcessTable) : List Slot :=
  t.candidates.filter fun slot => (t.process slot).isReady

theorem pickNext_eq_head {rest : List Slot} (h : t.queue = slot :: rest) : t.pickNext = slot := by
  unfold pickNext
  rw [← List.head?_filter, ← queue, h, List.head?_cons]

/-- The one that was picked waits behind all others. -/
theorem queue_rotate {rest : List Slot} (h : t.queue = slot :: rest) (same : t.SameProcesses t')
    (current : t'.current = slot) : t'.queue = rest ++ [slot] := by
  obtain ⟨before, behind, split, passed, ready, rfl⟩ := List.filter_eq_cons_iff.1 h
  have none : before.filter (fun slot => (t.process slot).isReady) = [] :=
    List.filter_eq_nil_iff.2 passed
  have ready' : (fun slot => (t'.process slot).isReady) = fun slot => (t.process slot).isReady :=
    funext same.isReady
  rw [queue, ready', candidates_rotate split current, List.filter_append, List.filter_append, none,
    List.append_nil, List.filter_singleton, ready, cond_true]

def distance (t : ProcessTable) (slot : Slot) : Nat := t.candidates.idxOf slot

theorem distance_lt_slotCount (t : ProcessTable) (slot : Slot) : t.distance slot < slotCount := by
  have inside := List.idxOf_lt_length_of_mem (t.mem_candidates slot)
  simpa [distance, candidates] using inside

/-- While a slot is ready, a yield goes to a ready slot. -/
theorem isReady_pickNext {j : Slot} (ready : (t.process j).isReady = true) :
    (t.process t.pickNext).isReady = true := by
  have waiting : j ∈ t.queue := List.mem_filter.2 ⟨t.mem_candidates j, ready⟩
  obtain ⟨slot, rest, h⟩ := List.exists_cons_of_ne_nil (List.ne_nil_of_mem waiting)
  have first : slot ∈ t.queue := h ▸ List.mem_cons_self
  rw [pickNext_eq_head h]
  exact (List.mem_filter.1 first).2

/-- A ready slot that is passed over comes nearer. -/
theorem distance_lt {j : Slot} (ready : (t.process j).isReady = true)
    (current : t'.current = t.pickNext) (passed : t.pickNext ≠ j) :
    t'.distance j < t.distance j := by
  have waiting : j ∈ t.queue := List.mem_filter.2 ⟨t.mem_candidates j, ready⟩
  obtain ⟨slot, rest, h⟩ := List.exists_cons_of_ne_nil (List.ne_nil_of_mem waiting)
  rw [pickNext_eq_head h] at current passed
  obtain ⟨before, behind, split, unready, -, rfl⟩ := List.filter_eq_cons_iff.1 h
  have notBefore : j ∉ before := fun mem => unready j mem ready
  have isBehind : j ∈ behind := by
    have mem := t.mem_candidates j
    rw [split, List.mem_append, List.mem_cons] at mem
    exact (mem.resolve_left notBefore).resolve_left passed.symm
  rw [distance, distance, candidates_rotate split current, split, List.append_assoc,
    List.idxOf_append_of_mem isBehind, List.idxOf_append_of_notMem notBefore,
    List.idxOf_cons_ne _ passed]
  omega

end PocketKernel.ProcessTable
