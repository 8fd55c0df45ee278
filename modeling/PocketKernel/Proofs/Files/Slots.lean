import Mathlib
import PocketKernel.Proofs.Files.Calls

/-!
# The file table as slots

In memory the table is a fixed number of slots. A slot has a mark whether it is in use, a name and
data in buffers of fixed size, and the lengths of both; the bytes behind a shorter content are those
of a longer one before it. `SlotTable` works on such slots step by step, as a program on a mutable
table does. Main statement: slots, the table of files and the list of files cannot be told apart by
any calls (`run_slots`).
-/
namespace PocketKernel

structure FileSlot where
  inUse : Bool
  name : Bytes
  nameLength : Nat
  data : Bytes
  size : Nat

namespace FileSlot

def blank : FileSlot := ⟨false, Bytes.zeros fileNameMax, 0, Bytes.zeros fileDataMax, 0⟩

def fileName (s : FileSlot) : Bytes := s.name.take s.nameLength

def view (s : FileSlot) : FileView := ⟨s.fileName, s.size, s.data.take s.size⟩

def isNamed (name : Bytes) (s : FileSlot) : Bool := s.inUse && s.fileName == name

/-- The slot holds the file, with the bytes behind its content. -/
structure Shows (s : FileSlot) (f : File) : Prop where
  inUse : s.inUse = true
  name : s.fileName = f.name
  data : s.data = f.buffer
  size : s.size = f.size

theorem Shows.view_eq {s : FileSlot} {f : File} (h : s.Shows f) : s.view = f.view := by
  simp only [view, File.view, File.contents, h.name, h.data, h.size]

end FileSlot

abbrev SlotTable := List FileSlot

namespace SlotTable

def blank : SlotTable := List.replicate filesMax .blank

def used (t : SlotTable) : List FileSlot := t.filter (·.inUse)

/-- A computation on the slots that may be refused; what it has changed before stays changed. -/
abbrev Update := EStateM StoreError SlotTable Unit

def overwriteSlot (i : Nat) (data : Bytes) : Update := do
  if fileDataMax < data.length then
    throw (.dataTooLarge data.length)
  modify (·.modify i fun s => { s with data := s.data.splice 0 data })
  modify (·.modify i fun s => { s with size := data.length })

def storeFile (i : Nat) (name data : Bytes) : Update := do
  modify (·.modify i fun _ => .blank)
  modify (·.modify i fun s => { s with inUse := true })
  modify (·.modify i fun s => { s with name := s.name.splice 0 name })
  modify (·.modify i fun s => { s with nameLength := name.length })
  overwriteSlot i data

def claimSlot (name data : Bytes) : Update := do
  if fileNameMax ≤ name.length then
    throw (.nameTooLong name.length)
  if fileDataMax < data.length then
    throw (.dataTooLarge data.length)
  match (← get).findIdx? (!·.inUse) with
  | none => throw .tableFull
  | some i => storeFile i name data

def insert (name data : Bytes) : Update := do
  if ((← get).find? (FileSlot.isNamed name)).isSome then
    throw .duplicate
  claimSlot name data

def answer : EStateM.Result StoreError SlotTable Unit → TableAnswer × SlotTable
  | .ok _ t => (.done, t)
  | .error cause t => (.refused cause, t)

instance : FileTable SlotTable where
  call
    | .insert name data, t => answer (insert name data t)
    | .overwrite name data, t =>
      match t.findIdx? (FileSlot.isNamed name) with
      | none => (.missing, t)
      | some i => answer (overwriteSlot i data t)
  iter t := t.used.map (·.view)
  get? t name := (t.find? (FileSlot.isNamed name)).map (·.view)
  len t := t.used.length

/-! ## What the updates do -/

def claimed (name data : Bytes) : FileSlot :=
  ⟨true, (Bytes.zeros fileNameMax).splice 0 name, name.length,
    (Bytes.zeros fileDataMax).splice 0 data, data.length⟩

def filled (data : Bytes) (s : FileSlot) : FileSlot :=
  { s with data := s.data.splice 0 data, size := data.length }

section
variable (t : SlotTable) (name data : Bytes)

theorem overwriteSlot_eq (i : Nat) :
    overwriteSlot i data t =
      if fileDataMax < data.length then .error (.dataTooLarge data.length) t
      else .ok () (t.modify i (filled data)) := by
  unfold overwriteSlot
  split
  · rfl
  · change EStateM.Result.ok () ((t.modify i _).modify i _) = _
    rw [List.modify_modify_eq]
    rfl

theorem storeFile_eq (i : Nat) (small : data.length ≤ fileDataMax) :
    storeFile i name data t = .ok () (t.modify i fun _ => claimed name data) := by
  change overwriteSlot i data ((((t.modify i _).modify i _).modify i _).modify i _) = _
  rw [overwriteSlot_eq, if_neg (by omega)]
  simp only [List.modify_modify_eq]
  rfl

theorem claimSlot_eq :
    claimSlot name data t =
      if fileNameMax ≤ name.length then .error (.nameTooLong name.length) t
      else if fileDataMax < data.length then .error (.dataTooLarge data.length) t
      else match t.findIdx? (!·.inUse) with
        | none => .error .tableFull t
        | some i => .ok () (t.modify i fun _ => claimed name data) := by
  unfold claimSlot
  split
  · rfl
  split
  · rfl
  next small =>
  change (match t.findIdx? fun s : FileSlot => !s.inUse with
    | none => throw StoreError.tableFull
    | some i => storeFile i name data : Update) t = _
  cases t.findIdx? fun s : FileSlot => !s.inUse with
  | none => rfl
  | some i => exact storeFile_eq t name data i (by omega)

theorem insert_eq :
    insert name data t =
      if (t.find? (FileSlot.isNamed name)).isSome then .error .duplicate t
      else claimSlot name data t := by
  change (if (t.find? (FileSlot.isNamed name)).isSome then (throw .duplicate : Update)
    else claimSlot name data) t = _
  split <;> rfl

/-- A call that is refused leaves every slot as it was. -/
theorem eq_of_refused {c : TableCall} {cause : StoreError}
    (h : (FileTable.call c t).1 = .refused cause) : (FileTable.call c t).2 = t := by
  cases c with
  | insert name data =>
    simp only [FileTable.call, insert_eq, claimSlot_eq] at h ⊢
    split_ifs at h ⊢
    · rfl
    · rfl
    · rfl
    · cases found : t.findIdx? fun s : FileSlot => !s.inUse with
      | none => rfl
      | some i =>
        rw [found] at h
        cases h
  | overwrite name data =>
    simp only [FileTable.call, overwriteSlot_eq] at h ⊢
    split at h
    · cases h
    next i found =>
    split_ifs at h ⊢ with large
    · rfl
    · cases h

end

/-! ## Slots and files -/

/-- The slots in use come first and hold the files in order. -/
inductive Represents : SlotTable → List File → Prop where
  | free {t : SlotTable} (h : ∀ s ∈ t, s.inUse = false) : Represents t []
  | used {s : FileSlot} {f : File} {t : SlotTable} {files : List File} (head : s.Shows f)
      (tail : Represents t files) : Represents (s :: t) (f :: files)

namespace Represents
variable {t : SlotTable} {files : List File}

theorem blank : Represents blank [] := .free (by simp [SlotTable.blank, FileSlot.blank])

theorem map_view (h : Represents t files) : t.used.map (·.view) = files.map File.view := by
  induction h with
  | free h => simpa [SlotTable.used] using h
  | used head tail ih =>
    simp only [SlotTable.used, List.filter_cons_of_pos head.inUse, List.map_cons, head.view_eq]
    exact congrArg _ ih

theorem find?_isNamed (h : Represents t files) (name : Bytes) :
    (t.find? (FileSlot.isNamed name)).map (·.view) =
      (files.find? (·.name == name)).map File.view := by
  induction h with
  | @free t h =>
    have none : ∀ s ∈ t, ¬ FileSlot.isNamed name s := fun s hs => by simp [FileSlot.isNamed, h s hs]
    rw [List.find?_eq_none.2 none]
    rfl
  | @used s f t files head tail ih =>
    have same : FileSlot.isNamed name s = (f.name == name) := by
      rw [FileSlot.isNamed, head.inUse, head.name, Bool.true_and]
    rw [List.find?_cons, List.find?_cons, same]
    split
    · exact congrArg some head.view_eq
    · exact ih

theorem findIdx?_isNamed (h : Represents t files) (name : Bytes) :
    t.findIdx? (FileSlot.isNamed name) = files.findIdx? (·.name == name) := by
  induction h with
  | free h =>
    rw [List.findIdx?_nil, List.findIdx?_eq_none_iff]
    intro s hs
    simp [FileSlot.isNamed, h s hs]
  | used head tail ih => simp only [List.findIdx?_cons, ih, FileSlot.isNamed, head.inUse, head.name,
      Bool.true_and]

/-- The first slot that is not in use is the one behind the files. -/
theorem findIdx?_free (h : Represents t files) :
    (t.findIdx? fun s => !s.inUse) =
      if files.length < t.length then some files.length else none := by
  induction h with
  | @free t h =>
    cases t with
    | nil => rfl
    | cons s rest => simp [List.findIdx?_cons, h s List.mem_cons_self]
  | used head tail ih =>
    rw [List.findIdx?_cons, head.inUse, ih, Bool.not_true, if_neg Bool.false_ne_true]
    simp only [List.length_cons, Nat.add_lt_add_iff_right]
    split <;> rfl

theorem append (h : Represents t files) {s : FileSlot} {f : File} (new : s.Shows f)
    (room : files.length < t.length) :
    Represents (t.modify files.length fun _ => s) (files ++ [f]) := by
  induction h with
  | @free t h =>
    cases t with
    | nil => cases room
    | cons s rest => exact .used new (.free fun s hs => h s (List.mem_cons_of_mem _ hs))
  | used head tail ih => exact .used head (ih (by simpa using room))

theorem set (h : Represents t files) {i : Nat} {f g : File} {change : FileSlot → FileSlot}
    (stored : files[i]? = some f) (changed : ∀ s : FileSlot, s.Shows f → (change s).Shows g) :
    Represents (t.modify i change) (files.set i g) := by
  induction h generalizing i with
  | free h => cases stored
  | used head tail ih =>
    cases i with
    | zero =>
      cases stored
      exact .used (changed _ head) tail
    | succ i => exact .used head (ih stored)

end Represents

theorem shows_claimed {name data : Bytes} {f : File} (made : File.create name data = .ok f) :
    (claimed name data).Shows f := by
  unfold File.create File.overwrite at made
  split at made
  · split at made
    · cases made
      exact ⟨rfl, by simp [FileSlot.fileName, claimed, Bytes.splice], rfl, rfl⟩
    · cases made
  · cases made

theorem shows_filled {s : FileSlot} {f g : File} {data : Bytes} (h : s.Shows f)
    (written : f.overwrite data = .ok g) : (filled data s).Shows g := by
  unfold File.overwrite at written
  split at written
  · cases written
    exact ⟨h.inUse, h.name, congrArg (·.splice 0 data) h.data, rfl⟩
  · cases written

structure Stores (t : SlotTable) (s : FileStore) : Prop where
  represents : Represents t s.files
  length : t.length = filesMax

theorem stores_blank : Stores blank .empty := ⟨.blank, List.length_replicate⟩

namespace Stores
variable {t : SlotTable} {s : FileStore}

/-- A new file is refused for the reasons of the list, before any slot is touched. -/
theorem insert_eq (h : Stores t s) (name data : Bytes) :
    insert name data t =
      match FileList.refusal? s.entries name data with
      | some cause => .error cause t
      | none => .ok () (t.modify s.files.length fun _ => claimed name data) := by
  have named : (t.find? (FileSlot.isNamed name)).isSome ↔ name ∈ s.entries.map (·.name) := by
    have found := congrArg Option.isSome (h.represents.find?_isNamed name)
    rw [Option.isSome_map, Option.isSome_map] at found
    rw [← FileStore.isSome_find?, found, FileStore.find?]
  have count : s.entries.length = s.files.length := List.length_map _
  rw [SlotTable.insert_eq, claimSlot_eq, FileList.refusal?, h.represents.findIdx?_free, h.length,
    count]
  simp only [named]
  split_ifs with _ _ _ room full full
  · rfl
  · rfl
  · rfl
  · omega
  · rfl
  · rfl
  · omega

theorem call_insert (h : Stores t s) (name data : Bytes) :
    (FileTable.call (.insert name data) t).1 = (FileTable.call (.insert name data) s).1 ∧
      Stores (FileTable.call (.insert name data) t).2 (FileTable.call (.insert name data) s).2 := by
  simp only [FileTable.call, h.insert_eq]
  cases done : s.insert name data with
  | error cause =>
    rw [FileStore.insert_eq_error.1 done]
    exact ⟨rfl, h⟩
  | ok u =>
    have accepted := FileStore.refusal?_of_ok done
    obtain ⟨f, made, files⟩ := FileStore.insert_eq_ok done
    have room : s.files.length < t.length := by
      rw [h.length, ← List.length_map File.entry]
      exact (FileList.refusal?_eq_none.1 accepted).2.2.2
    rw [accepted]
    refine ⟨rfl, ?_, (List.length_modify ..).trans h.length⟩
    rw [files]
    exact h.represents.append (shows_claimed made) room

theorem call_overwrite (h : Stores t s) (name data : Bytes) :
    (FileTable.call (.overwrite name data) t).1 = (FileTable.call (.overwrite name data) s).1 ∧
      Stores (FileTable.call (.overwrite name data) t).2
        (FileTable.call (.overwrite name data) s).2 := by
  simp only [FileTable.call, h.represents.findIdx?_isNamed, overwriteSlot_eq]
  cases found : s.files.findIdx? (·.name == name) with
  | none =>
    rw [FileStore.overwrite_of_none data found]
    exact ⟨rfl, h⟩
  | some i =>
    obtain ⟨f, stored, -, ⟨large, refused⟩ | ⟨small, g, u, written, done, files⟩⟩ :=
      FileStore.overwrite_of_some data found
    · simp only [refused, if_pos large]
      exact ⟨rfl, h⟩
    · simp only [done, if_neg (show ¬ fileDataMax < data.length by omega)]
      refine ⟨rfl, ?_, (List.length_modify ..).trans h.length⟩
      rw [files]
      exact h.represents.set stored fun s shown => shows_filled shown written

end Stores

/-- The slots behave as the table of files. -/
theorem simulates_fileStore : FileTable.Simulates Stores where
  alike h := by
    have views := h.represents.map_view
    have count := congrArg List.length views
    rw [List.length_map, List.length_map] at count
    exact ⟨views, funext h.represents.find?_isNamed, count⟩
  answer c _ _ h := by
    cases c with
    | insert name data => exact (h.call_insert name data).1
    | overwrite name data => exact (h.call_overwrite name data).1
  next c _ _ h := by
    cases c with
    | insert name data => exact (h.call_insert name data).2
    | overwrite name data => exact (h.call_overwrite name data).2

open FileTable in
/-- After any calls on a new table the slots, the table of files and the list of at most two files
have given the same answers and show the same files, in use and found by name. The slots in use hold
the files with all the bytes of their buffers, and a call that they refuse leaves every slot as it
was. -/
theorem run_slots (calls : List TableCall) :
    FileList.Proper (run calls ([] : FileList)).2 ∧
      Agree (run calls FileStore.empty) (run calls ([] : FileList)) ∧
      Agree (run calls blank) (run calls ([] : FileList)) ∧
      Represents (run calls blank).2 (run calls FileStore.empty).2.files ∧
      ∀ (c : TableCall) (cause : StoreError), (call c (run calls blank).2).1 = .refused cause →
        (call c (run calls blank).2).2 = (run calls blank).2 := by
  have table := FileStore.simulates_fileList.agree calls FileStore.holds_empty
  have slots := simulates_fileStore.agree calls stores_blank
  exact ⟨FileList.proper_nil.run calls, table, slots.trans table,
    (simulates_fileStore.run calls stores_blank).2.represents, fun _ _ => eq_of_refused _⟩

open FileTable in
/-- A second file of one name is refused after an overwrite that left an old byte in the buffer. -/
theorem run_slots_duplicate :
    (call (.insert [0x61] [3]) (run [.insert [0x61] [1, 2], .overwrite [0x61] [9]] blank).2).1 =
        .refused .duplicate ∧
      (call (.insert [0x61] [3]) (run [.insert [0x61] [1, 2], .overwrite [0x61] [9]] blank).2).2 =
        (run [.insert [0x61] [1, 2], .overwrite [0x61] [9]] blank).2 := by
  have refused : (call (.insert [0x61] [3])
      (run [.insert [0x61] [1, 2], .overwrite [0x61] [9]] blank).2).1 = .refused .duplicate := by
    decide +kernel
  exact ⟨refused, (run_slots _).2.2.2.2 _ _ refused⟩

end SlotTable

end PocketKernel
