import Mathlib
import PocketKernel.Proofs.Files.Filling
import PocketKernel.Proofs.Files.Names

/-!
# What is wrong with an archive

A load makes one read more than the table has room for. It is refused for the first flaw that it
meets: a read that fails, or an entry that cannot be a file. Reads and flaws are numbered from the
front of the archive, and neither has to do with a table. Main statement: the answer of a load and
the files after it are those of the archive up to its first flaw (`load_of_archive`).
-/
namespace PocketKernel

namespace Archive

/-- The answer to read number `i` from `offset` on, where each read begins at the offset that the
one before it gave. There is no such read when one before it found no entry. -/
def readAt (image : Bytes) : (i offset : Nat) → Option (Except StoreError (Option (Entry × Nat)))
  | 0, offset => some (readEntry image offset)
  | i + 1, offset =>
    match readEntry image offset with
    | .ok (some (_, next)) => readAt image i next
    | _ => none

def found (image : Bytes) (offset : Nat) : List Entry := (walk image offset).1.map Prod.fst

def Entry.unfit? (e : Entry) : Option StoreError :=
  if fileNameMax ≤ e.name.length then some (.nameTooLong e.name.length)
  else if fileDataMax < e.data.length then some (.dataTooLarge e.data.length)
  else none

/-- What is wrong with read number `i`: it fails, or it finds an entry that cannot be a file and is
one of the first `room` entries. -/
def flaw? (image : Bytes) (room offset i : Nat) : Option StoreError :=
  match readAt image i offset with
  | some (.error cause) => some cause
  | some (.ok (some (e, _))) => if i < room then e.unfit? else none
  | _ => none

/-- The first flaw in the order of the archive, among the first `room` reads and one more. -/
structure FirstFlaw (image : Bytes) (room offset i : Nat) (cause : StoreError) : Prop where
  le : i ≤ room
  here : flaw? image room offset i = some cause
  before : ∀ j < i, flaw? image room offset j = none

section
variable {image : Bytes} {room offset next i j : Nat} {e : Entry} {cause other : StoreError}

theorem FirstFlaw.unique (h : FirstFlaw image room offset i cause)
    (h' : FirstFlaw image room offset j other) : i = j ∧ cause = other := by
  have here := h.here
  have here' := h'.here
  rcases lt_trichotomy i j with lt | rfl | lt
  · rw [h'.before i lt] at here
    cases here
  · exact ⟨rfl, Option.some.inj (here.symm.trans here')⟩
  · rw [h.before j lt] at here'
    cases here'

theorem FirstFlaw.not_flawless (h : FirstFlaw image room offset i cause) :
    ¬ ∀ j ≤ room, flaw? image room offset j = none := by
  intro flawless
  have here := h.here
  rw [flawless i h.le] at here
  cases here

theorem unfit?_eq_none : e.unfit? = none ↔ e.FitsFile := by
  unfold Entry.unfit? Entry.FitsFile
  split_ifs <;> simp <;> omega

/-- A file is refused for what is wrong with its entry. -/
theorem create_eq_error : File.create e.name e.data = .error cause ↔ e.unfit? = some cause := by
  unfold File.create File.overwrite Entry.unfit?
  split_ifs <;> simp <;> omega

/-! ## The reads behind the first one -/

theorem readAt_succ (read : readEntry image offset = .ok (some (e, next))) (i : Nat) :
    readAt image (i + 1) offset = readAt image i next := by
  rw [readAt, read]

theorem readAt_succ_of_ends (ends : EndsAt image offset) (i : Nat) :
    readAt image (i + 1) offset = none := by
  rw [readAt]
  rcases ends with last | ⟨cause, failed⟩
  · rw [last]
  · rw [failed]

theorem flaw?_succ (read : readEntry image offset = .ok (some (e, next))) (room i : Nat) :
    flaw? image (room + 1) offset (i + 1) = flaw? image room next i := by
  simp only [flaw?, readAt_succ read, Nat.add_lt_add_iff_right]

theorem flaw?_succ_of_ends (ends : EndsAt image offset) (room i : Nat) :
    flaw? image room offset (i + 1) = none := by
  rw [flaw?, readAt_succ_of_ends ends]

theorem found_of_some (read : readEntry image offset = .ok (some (e, next))) :
    found image offset = e :: found image next := by
  rw [found, walk_of_some read, List.map_cons, found]

/-- A flaw behind a first entry that can be a file. -/
theorem FirstFlaw.behind (h : FirstFlaw image room next i cause)
    (read : readEntry image offset = .ok (some (e, next))) (fit : e.unfit? = none) :
    FirstFlaw image (room + 1) offset (i + 1) cause where
  le := Nat.succ_le_succ h.le
  here := (flaw?_succ read room i).trans h.here
  before := by
    rintro (_ | j) hj
    · simp [flaw?, readAt, read, fit]
    · exact (flaw?_succ read room j).trans (h.before j (by omega))

/-- The entry number `i` is what read number `i` has found. -/
theorem getElem?_found :
    (found image offset)[i]? = some e ↔
      ∃ next, readAt image i offset = some (.ok (some (e, next))) := by
  induction i generalizing offset with
  | zero =>
    match read : readEntry image offset with
    | .error cause => simp [found, walk_of_error read, readAt, read]
    | .ok none => simp [found, walk_of_none read, readAt, read]
    | .ok (some (first, next)) => simp [found_of_some read, readAt, read]
  | succ i ih =>
    match read : readEntry image offset with
    | .error cause => simp [found, walk_of_error read, readAt_succ_of_ends (.inr ⟨cause, read⟩)]
    | .ok none => simp [found, walk_of_none read, readAt_succ_of_ends (.inl read)]
    | .ok (some (first, next)) =>
      rw [found_of_some read, List.getElem?_cons_succ, ih, readAt_succ read]

/-- An archive without flaws: the reads that are made find entries that can be files, or the end. -/
theorem flaw?_eq_none_iff : (∀ i ≤ room, flaw? image room offset i = none) ↔
    (∀ i ≤ room, ∀ cause, readAt image i offset ≠ some (.error cause)) ∧
      ∀ e ∈ (found image offset).take room, e.FitsFile := by
  constructor
  · intro flawless
    refine ⟨fun i hi cause failed => ?_, fun e mem => ?_⟩
    · have flaw := flawless i hi
      rw [flaw?, failed] at flaw
      cases flaw
    · obtain ⟨i, there⟩ := List.mem_iff_getElem?.1 mem
      rw [List.getElem?_take] at there
      split_ifs at there with hi
      obtain ⟨next, read⟩ := getElem?_found.1 there
      have flaw := flawless i hi.le
      rw [flaw?, read] at flaw
      exact unfit?_eq_none.1 (by simpa [hi] using flaw)
  · rintro ⟨succeeds, fits⟩ i hi
    match read : readAt image i offset with
    | none => rw [flaw?, read]
    | some (.error cause) => exact absurd read (succeeds i hi cause)
    | some (.ok none) => rw [flaw?, read]
    | some (.ok (some (e, next))) =>
      simp only [flaw?, read]
      split_ifs with inside
      · have there := getElem?_found.2 ⟨next, read⟩
        refine unfit?_eq_none.2 (fits e (List.mem_iff_getElem?.2 ⟨i, ?_⟩))
        rw [List.getElem?_take, if_pos inside, there]
      · rfl

/-- A flaw at the first read. -/
theorem firstFlaw_zero (here : flaw? image room offset 0 = some cause) :
    FirstFlaw image room offset 0 cause :=
  ⟨room.zero_le, here, fun _ hj => absurd hj (Nat.not_lt_zero _)⟩

theorem flaw?_of_none (last : readEntry image offset = .ok none) (room i : Nat) :
    flaw? image room offset i = none := by
  cases i with
  | zero => rw [flaw?, readAt, last]
  | succ i => exact flaw?_succ_of_ends (.inl last) room i

end

end Archive

namespace FileStore
open Archive SlotTable
variable {image : Bytes}

/-! ## The files before the first flaw -/

/-- What is stored is a front part of the entries. -/
theorem map_entry_readArchive (image : Bytes) (room offset : Nat) :
    (readArchive image room offset).1.map File.entry =
      (found image offset).take (readArchive image room offset).1.length := by
  have front : (readArchive image room offset).1.map File.entry <+: found image offset := by
    rw [entries_readArchive]
    exact (List.take_prefix _ _).trans (List.takeWhile_prefix _)
  simpa using List.prefix_iff_eq_take.1 front

/-- Storing stops at the first flaw, or when there is nothing left to store. -/
theorem flaws_of_readArchive (image : Bytes) (room offset : Nat) :
    match (readArchive image room offset).2 with
    | some cause => FirstFlaw image room offset (readArchive image room offset).1.length cause
    | none => (∀ i ≤ room, flaw? image room offset i = none) ∧
        (readArchive image room offset).1.length = min room (found image offset).length := by
  fun_induction readArchive image room offset with
  | case1 room offset cause read => exact firstFlaw_zero (by simp [flaw?, readAt, read])
  | case2 room offset read =>
    exact ⟨fun i _ => flaw?_of_none read room i, by simp [found, walk_of_none read]⟩
  | case3 offset e next read =>
    refine ⟨fun i hi => ?_, by simp⟩
    obtain rfl := Nat.le_zero.1 hi
    simp [flaw?, readAt, read]
  | case4 offset e next read room cause unfit =>
    exact firstFlaw_zero (by simp [flaw?, readAt, read, create_eq_error.1 unfit])
  | case5 offset e next read room file made others failure rest ih =>
    have fit : e.unfit? = none := by
      rw [Option.eq_none_iff_forall_ne_some]
      intro cause unfit
      rw [create_eq_error.2 unfit] at made
      cases made
    rw [rest] at ih
    cases failure with
    | some cause => exact ih.behind read fit
    | none =>
      obtain ⟨flawless, count⟩ := ih
      refine ⟨?_, ?_⟩
      · rintro (_ | i) hi
        · simp [flaw?, readAt, read, fit]
        · exact (flaw?_succ read room i).trans (flawless i (by omega))
      · rw [found_of_some read, List.length_cons, List.length_cons, count, Nat.succ_min_succ]

/-- An archive has no flaw, or a first one. -/
theorem flawless_or_exists_firstFlaw (image : Bytes) (room offset : Nat) :
    (∀ i ≤ room, flaw? image room offset i = none) ∨
      ∃ i cause, FirstFlaw image room offset i cause := by
  have flaws := flaws_of_readArchive image room offset
  cases failure : (readArchive image room offset).2 with
  | some cause =>
    rw [failure] at flaws
    exact .inr ⟨_, cause, flaws⟩
  | none =>
    rw [failure] at flaws
    exact .inl flaws.1

theorem load_of_flawless (s : FileStore)
    (flawless : ∀ i ≤ filesMax, flaw? image filesMax 0 i = none) :
    (s.load image).2 = .ok (min filesMax (found image 0).length) ∧
      (s.load image).1.entries = (found image 0).take (min filesMax (found image 0).length) := by
  have flaws := flaws_of_readArchive image filesMax 0
  have front := map_entry_readArchive image filesMax 0
  cases failure : (readArchive image filesMax 0).2 with
  | some cause =>
    rw [failure] at flaws
    exact absurd flawless flaws.not_flawless
  | none =>
    rw [failure] at flaws
    obtain ⟨-, count⟩ := flaws
    rw [count] at front
    exact ⟨by simp only [load, failure, count], front⟩

theorem load_of_firstFlaw (s : FileStore) {i : Nat} {cause : StoreError}
    (first : FirstFlaw image filesMax 0 i cause) :
    (s.load image).2 = .error cause ∧ i ≤ (found image 0).length ∧
      (s.load image).1.entries = (found image 0).take i := by
  have flaws := flaws_of_readArchive image filesMax 0
  have front := map_entry_readArchive image filesMax 0
  cases failure : (readArchive image filesMax 0).2 with
  | some cause =>
    rw [failure] at flaws
    obtain ⟨rfl, rfl⟩ := first.unique flaws
    have size := congrArg List.length front
    rw [List.length_map, List.length_take] at size
    exact ⟨by simp only [load, failure], by omega, front⟩
  | none =>
    rw [failure] at flaws
    exact absurd flaws.1 first.not_flawless

/-- Whatever a store and the slots of a table held, a load gives them the files of the archive. It
answers with their number exactly if no read fails, of those for the files and the one behind them,
and every entry that is to be stored can be a file. Otherwise it answers with the first flaw of the
archive, and there are the files of the entries before it. -/
theorem load_of_archive (s : FileStore) (image : Bytes) {t : SlotTable}
    (size : t.length = filesMax) :
    (∀ n, (s.load image).2 = .ok n ↔
      (∀ i ≤ filesMax, ∀ cause, readAt image i 0 ≠ some (.error cause)) ∧
        (∀ e ∈ (found image 0).take filesMax, e.FitsFile) ∧
        n = min filesMax (found image 0).length) ∧
    (∀ n, (s.load image).2 = .ok n → (s.load image).1.entries = (found image 0).take n) ∧
    (∀ cause, (s.load image).2 = .error cause ↔ ∃ i, FirstFlaw image filesMax 0 i cause) ∧
    (∀ i cause, FirstFlaw image filesMax 0 i cause →
      i ≤ (found image 0).length ∧ (s.load image).1.entries = (found image 0).take i) ∧
    ∃ n slots, Filled image n (.start t) slots (s.load image).2 ∧
      slots.Stores (s.load image).1 := by
  have filled := filled_load s image size
  rcases flawless_or_exists_firstFlaw image filesMax 0 with flawless | ⟨i, cause, first⟩
  · obtain ⟨answer, files⟩ := s.load_of_flawless flawless
    obtain ⟨succeeds, fits⟩ := flaw?_eq_none_iff.1 flawless
    refine ⟨fun n => ?_, fun n done => ?_, fun cause => ?_, fun i cause first => ?_, _, filled⟩
    · rw [answer, Except.ok.injEq, eq_comm]
      exact ⟨fun count => ⟨succeeds, fits, count⟩, fun h => h.2.2⟩
    · cases answer.symm.trans done
      exact files
    · rw [answer]
      exact ⟨nofun, fun ⟨i, first⟩ => absurd flawless first.not_flawless⟩
    · exact absurd flawless first.not_flawless
  · obtain ⟨answer, -⟩ := s.load_of_firstFlaw first
    refine ⟨fun n => ?_, fun n done => ?_, fun other => ?_, fun j other first' => ?_, _, filled⟩
    · rw [answer]
      exact ⟨nofun, fun ⟨succeeds, fits, _⟩ =>
        absurd (flaw?_eq_none_iff.2 ⟨succeeds, fits⟩) first.not_flawless⟩
    · cases answer.symm.trans done
    · rw [answer, Except.error.injEq]
      exact ⟨fun same => ⟨i, same ▸ first⟩, fun ⟨_, first'⟩ => (first.unique first').2⟩
    · exact (s.load_of_firstFlaw first').2

def badThird : Bytes :=
  records [⟨[0x61], [1]⟩, ⟨[0x62], []⟩] ++ (record ⟨[0x63], []⟩).set 100 0xff

/-- The entry behind the last that there is room for is read, and refuses the load. -/
theorem load_of_archive_badThird :
    FirstFlaw badThird filesMax 0 2 (.badChecksum 1536) ∧
      (FileStore.empty.load badThird).2 = .error (.badChecksum 1536) ∧
      (FileStore.empty.load badThird).1.entries = [⟨[0x61], [1]⟩, ⟨[0x62], []⟩] := by
  have first : FirstFlaw badThird filesMax 0 2 (.badChecksum 1536) :=
    ⟨le_rfl, by decide +kernel, by decide +kernel⟩
  obtain ⟨-, -, answer, files, -⟩ :=
    load_of_archive .empty badThird (t := [claimed [0x7a] [9], .blank]) rfl
  refine ⟨first, (answer _).2 ⟨2, first⟩, (files _ _ first).2.trans ?_⟩
  decide +kernel

end FileStore

end PocketKernel
