import Mathlib
import PocketKernel.Proofs.Files.Image

/-!
# The file table as a list of files

`FileTable` is what the callers of a table can do with it and see of it, `FileList` is a list of at
most two names with their data, and `Simulates` says that two tables answer alike, look alike and
stay that way. Main statement: the file table of the kernel behaves as the list
(`simulates_fileList`).
-/
namespace PocketKernel

structure FileView where
  name : Bytes
  size : Nat
  contents : Bytes

namespace File

def view (f : File) : FileView := ⟨f.name, f.size, f.contents⟩

end File

namespace Archive.Entry

def view (e : Entry) : FileView := ⟨e.name, e.data.length, e.data⟩

end Archive.Entry

theorem File.Whole.view_eq {f : File} (h : f.Whole) : f.view = f.entry.view := by
  simp only [File.view, Archive.Entry.view, File.entry, h.length_contents]

inductive TableCall where
  | insert (name data : Bytes)
  | overwrite (name data : Bytes)

/-- `missing` answers an overwrite of a file that is not stored. -/
inductive TableAnswer where
  | done
  | missing
  | refused (cause : StoreError)
  deriving DecidableEq

/-- A table of files as its callers know it. -/
class FileTable (T : Type) where
  call : TableCall → T → TableAnswer × T
  iter : T → List FileView
  get? : T → Bytes → Option FileView
  len : T → Nat

namespace FileTable
variable {S T U : Type} [FileTable S] [FileTable T] [FileTable U]

def run : List TableCall → T → List TableAnswer × T
  | [], t => ([], t)
  | c :: rest, t =>
    let (answer, next) := call c t
    let (answers, last) := run rest next
    (answer :: answers, last)

structure Alike (s : S) (t : T) : Prop where
  iter : iter s = iter t
  get? : get? s = get? t
  len : len s = len t

theorem Alike.trans {s : S} {t : T} {u : U} (h : Alike s t) (h' : Alike t u) : Alike s u :=
  ⟨h.iter.trans h'.iter, h.get?.trans h'.get?, h.len.trans h'.len⟩

/-- Tables that `R` relates look alike and answer every call alike, and `R` relates them again. -/
structure Simulates (R : S → T → Prop) : Prop where
  alike : ∀ {s t}, R s t → Alike s t
  answer : ∀ c {s t}, R s t → (call c s).1 = (call c t).1
  next : ∀ c {s t}, R s t → R (call c s).2 (call c t).2

structure Agree (r : List TableAnswer × S) (r' : List TableAnswer × T) : Prop where
  answers : r.1 = r'.1
  alike : Alike r.2 r'.2

theorem Agree.trans {r : List TableAnswer × S} {r' : List TableAnswer × T}
    {r'' : List TableAnswer × U} (h : Agree r r') (h' : Agree r' r'') : Agree r r'' :=
  ⟨h.answers.trans h'.answers, h.alike.trans h'.alike⟩

theorem Simulates.run {R : S → T → Prop} (h : Simulates R) (calls : List TableCall) {s : S} {t : T}
    (start : R s t) :
    (run calls s).1 = (run calls t).1 ∧ R (run calls s).2 (run calls t).2 := by
  induction calls generalizing s t with
  | nil => exact ⟨rfl, start⟩
  | cons c rest ih =>
    obtain ⟨answers, last⟩ := ih (h.next c start)
    exact ⟨congrArg₂ List.cons (h.answer c start) answers, last⟩

theorem Simulates.agree {R : S → T → Prop} (h : Simulates R) (calls : List TableCall) {s : S}
    {t : T} (start : R s t) : Agree (FileTable.run calls s) (FileTable.run calls t) :=
  ⟨(h.run calls start).1, h.alike (h.run calls start).2⟩

end FileTable

/-! ## The list -/

/-- What is read off the elements stays when an element is replaced by one that reads the same. -/
theorem map_set_eq {α β : Type} {f : α → β} {xs : List α} {i : Nat} {x y : α}
    (stored : xs[i]? = some y) (same : f x = f y) : (xs.set i x).map f = xs.map f := by
  obtain ⟨inside, rfl⟩ := List.getElem?_eq_some_iff.1 stored
  have bound : i < (xs.map f).length := by simpa using inside
  have here : (xs.map f)[i] = f xs[i] := List.getElem_map f
  rw [List.map_set, same, ← here, List.set_getElem_self]

abbrev FileList := List Archive.Entry

namespace FileList

def refusal? (files : FileList) (name data : Bytes) : Option StoreError :=
  if name ∈ files.map (·.name) then some .duplicate
  else if fileNameMax ≤ name.length then some (.nameTooLong name.length)
  else if fileDataMax < data.length then some (.dataTooLarge data.length)
  else if filesMax ≤ files.length then some .tableFull
  else none

def insert (files : FileList) (name data : Bytes) : TableAnswer × FileList :=
  match refusal? files name data with
  | some cause => (.refused cause, files)
  | none => (.done, files ++ [⟨name, data⟩])

def overwrite (files : FileList) (name data : Bytes) : TableAnswer × FileList :=
  match files.findIdx? (·.name == name) with
  | none => (.missing, files)
  | some i =>
    if data.length ≤ fileDataMax then (.done, files.set i ⟨name, data⟩)
    else (.refused (.dataTooLarge data.length), files)

instance : FileTable FileList where
  call
    | .insert name data, files => insert files name data
    | .overwrite name data, files => overwrite files name data
  iter files := files.map (·.view)
  get? files name := (files.find? (·.name == name)).map (·.view)
  len := List.length

structure Proper (files : FileList) : Prop where
  length_le : files.length ≤ filesMax
  nodup : (files.map (·.name)).Nodup

/-- A list takes a new file exactly when none of the four reasons against it holds. -/
theorem refusal?_eq_none {files : FileList} {name data : Bytes} :
    refusal? files name data = none ↔
      name ∉ files.map (·.name) ∧ name.length < fileNameMax ∧ data.length ≤ fileDataMax ∧
        files.length < filesMax := by
  unfold refusal?
  split_ifs <;> simp_all

theorem Proper.insert {files : FileList} (h : files.Proper) (name data : Bytes) :
    (FileList.insert files name data).2.Proper := by
  unfold FileList.insert
  split
  · exact h
  next accepted =>
    obtain ⟨fresh, -, -, room⟩ := refusal?_eq_none.1 accepted
    refine ⟨by simpa using room, ?_⟩
    simpa [List.nodup_append, h.nodup] using fresh

theorem Proper.overwrite {files : FileList} (h : files.Proper) (name data : Bytes) :
    (FileList.overwrite files name data).2.Proper := by
  unfold FileList.overwrite
  split
  · exact h
  next i found =>
  obtain ⟨inside, named, -⟩ := List.findIdx?_eq_some_iff_getElem.1 found
  have same : name = files[i].name := (eq_of_beq named).symm
  split
  · refine ⟨by simpa using h.length_le, ?_⟩
    rw [map_set_eq (List.getElem?_eq_getElem inside) same]
    exact h.nodup
  · exact h

theorem Proper.run {files : FileList} (h : files.Proper) (calls : List TableCall) :
    (FileTable.run calls files).2.Proper := by
  induction calls generalizing files with
  | nil => exact h
  | cons c rest ih =>
    cases c with
    | insert name data => exact ih (h.insert name data)
    | overwrite name data => exact ih (h.overwrite name data)

theorem proper_nil : Proper [] := ⟨Nat.zero_le _, List.nodup_nil⟩

end FileList

/-! ## The table of the kernel -/

namespace FileStore

instance : FileTable FileStore where
  call
    | .insert name data, s =>
      match s.insert name data with
      | .ok t => (.done, t)
      | .error cause => (.refused cause, s)
    | .overwrite name data, s =>
      match s.overwrite name data with
      | none => (.missing, s)
      | some (.ok t) => (.done, t)
      | some (.error cause) => (.refused cause, s)
  iter s := s.files.map File.view
  get? s name := (s.find? name).map File.view
  len s := s.files.length

structure Holds (s : FileStore) (files : FileList) : Prop where
  entries : s.entries = files
  whole : ∀ f ∈ s.files, f.Whole

theorem holds_empty : empty.Holds [] := ⟨rfl, nofun⟩

theorem isSome_find? {s : FileStore} {name : Bytes} :
    (s.find? name).isSome ↔ name ∈ s.entries.map (·.name) := by
  simp [find?, entries, File.entry]

/-- The table refuses a new file for the same reason as the list. -/
theorem insert_eq_error {s : FileStore} {name data : Bytes} {cause : StoreError} :
    s.insert name data = .error cause ↔ FileList.refusal? s.entries name data = some cause := by
  have count : s.entries.length = s.files.length := List.length_map _
  unfold insert FileList.refusal? File.create File.overwrite
  by_cases stored : (s.find? name).isSome
  · rw [if_pos stored, if_pos (isSome_find?.1 stored)]
    simp
  rw [if_neg stored, if_neg (mt isSome_find?.2 stored)]
  by_cases long : fileNameMax ≤ name.length
  · rw [if_pos long, dif_neg (by omega)]
    simp
  rw [if_neg long, dif_pos (by omega)]
  by_cases large : fileDataMax < data.length
  · rw [if_pos large, dif_neg (by omega)]
    simp
  rw [if_neg large, dif_pos (by omega), count]
  by_cases full : filesMax ≤ s.files.length
  · rw [if_pos full]
    dsimp only
    rw [dif_neg (by omega)]
    simp
  · rw [if_neg full]
    dsimp only
    rw [dif_pos (by omega)]
    simp

theorem refusal?_of_ok {s t : FileStore} {name data : Bytes} (done : s.insert name data = .ok t) :
    FileList.refusal? s.entries name data = none := by
  rw [Option.eq_none_iff_forall_ne_some]
  intro cause refused
  rw [insert_eq_error.2 refused] at done
  cases done

theorem find?_eq {s : FileStore} {name : Bytes} :
    s.find? name = (s.files.findIdx? (·.name == name)).bind (s.files[·]?) :=
  List.find?_eq_bind_findIdx?_getElem?

theorem findIdx?_entries {s : FileStore} {name : Bytes} :
    s.entries.findIdx? (·.name == name) = s.files.findIdx? (·.name == name) := by
  rw [entries, List.findIdx?_map]
  rfl

theorem replaceFirst_eq_set {name : Bytes} {g : File} {files : List File} {i : Nat}
    (h : files.findIdx? (·.name == name) = some i) : replaceFirst name g files = files.set i g := by
  induction files generalizing i with
  | nil => cases h
  | cons f rest ih =>
    rw [List.findIdx?_cons] at h
    unfold replaceFirst
    by_cases here : f.name == name
    · rw [if_pos here] at h ⊢
      cases h
      rfl
    · rw [if_neg here] at h ⊢
      obtain ⟨j, found, rfl⟩ := Option.map_eq_some_iff.1 h
      rw [ih found, List.set_cons_succ]

/-- An overwrite of a stored file refuses large data and otherwise replaces that file. -/
theorem overwrite_of_some {s : FileStore} {name : Bytes} {i : Nat} (data : Bytes)
    (found : s.files.findIdx? (·.name == name) = some i) :
    ∃ f, s.files[i]? = some f ∧ f.name = name ∧
      ((fileDataMax < data.length ∧
          s.overwrite name data = some (.error (.dataTooLarge data.length))) ∨
        data.length ≤ fileDataMax ∧ ∃ g t, f.overwrite data = .ok g ∧
          s.overwrite name data = some (.ok t) ∧ t.files = s.files.set i g) := by
  obtain ⟨inside, named, -⟩ := List.findIdx?_eq_some_iff_getElem.1 found
  refine ⟨s.files[i], List.getElem?_eq_getElem inside, by simpa using named, ?_⟩
  have stored : s.find? name = some s.files[i] := by
    rw [find?_eq, found, Option.bind_some, List.getElem?_eq_getElem inside]
  unfold overwrite
  rw [stored]
  dsimp only
  cases written : s.files[i].overwrite data with
  | error cause =>
    unfold File.overwrite at written
    split at written
    · cases written
    next large =>
      cases written
      exact .inl ⟨by omega, rfl⟩
  | ok g =>
    have small : data.length ≤ fileDataMax := by
      unfold File.overwrite at written
      split at written
      next small => exact small
      next => cases written
    exact .inr ⟨small, g, _, rfl, rfl, replaceFirst_eq_set found⟩

theorem overwrite_of_none {s : FileStore} {name : Bytes} (data : Bytes)
    (missing : s.files.findIdx? (·.name == name) = none) : s.overwrite name data = none := by
  unfold overwrite
  rw [find?_eq, missing]
  rfl

theorem Holds.call_insert {s : FileStore} {files : FileList} (h : s.Holds files)
    (name data : Bytes) :
    (FileTable.call (.insert name data) s).1 = (FileList.insert files name data).1 ∧
      (FileTable.call (.insert name data) s).2.Holds (FileList.insert files name data).2 := by
  obtain ⟨rfl, whole⟩ := h
  simp only [FileTable.call, FileList.insert]
  cases done : s.insert name data with
  | error cause =>
    rw [insert_eq_error.1 done]
    exact ⟨rfl, rfl, whole⟩
  | ok t =>
    obtain ⟨f, made, files⟩ := insert_eq_ok done
    rw [refusal?_of_ok done]
    refine ⟨rfl, entries_of_insert done, ?_⟩
    simp only [files, List.mem_append, List.mem_singleton]
    rintro g (old | rfl)
    · exact whole g old
    · exact (File.create_eq_ok_iff made).2.1

theorem Holds.call_overwrite {s : FileStore} {files : FileList} (h : s.Holds files)
    (name data : Bytes) :
    (FileTable.call (.overwrite name data) s).1 = (FileList.overwrite files name data).1 ∧
      (FileTable.call (.overwrite name data) s).2.Holds (FileList.overwrite files name data).2 := by
  obtain ⟨rfl, whole⟩ := h
  simp only [FileTable.call, FileList.overwrite, findIdx?_entries]
  cases found : s.files.findIdx? (·.name == name) with
  | none =>
    rw [overwrite_of_none data found]
    exact ⟨rfl, rfl, whole⟩
  | some i =>
    obtain ⟨f, stored, rfl, ⟨large, refused⟩ | ⟨small, g, t, written, done, files⟩⟩ :=
      overwrite_of_some data found
    · simp only [refused, if_neg (show ¬ data.length ≤ fileDataMax by omega)]
      exact ⟨trivial, rfl, whole⟩
    · have same : t.entries = s.entries.set i ⟨f.name, data⟩ := by
        have new : g.entry = ⟨f.name, data⟩ := by
          rw [File.entry, File.name_of_overwrite written, File.contents_of_overwrite written]
        rw [FileStore.entries, files, List.map_set, new, FileStore.entries]
      simp only [done, if_pos small]
      refine ⟨trivial, same, ?_⟩
      rw [files]
      intro h hh
      rcases List.mem_or_eq_of_mem_set hh with old | rfl
      · exact whole h old
      · exact (whole f (List.mem_of_getElem? stored)).overwrite written

/-- The table of the kernel behaves as the list of its files. -/
theorem simulates_fileList : FileTable.Simulates Holds where
  alike {s _} h := by
    obtain ⟨rfl, whole⟩ := h
    refine ⟨?_, ?_, (List.length_map _).symm⟩
    · change s.files.map File.view = s.entries.map Archive.Entry.view
      rw [entries, List.map_map]
      exact List.map_congr_left fun f hf => (whole f hf).view_eq
    · funext name
      change (s.find? name).map File.view =
        (s.entries.find? (·.name == name)).map Archive.Entry.view
      rw [entries, List.find?_map, Option.map_map]
      change _ = (s.find? name).map _
      exact Option.map_congr fun f hf => (whole f (List.mem_of_find?_eq_some hf)).view_eq
  answer c _ _ h := by
    cases c with
    | insert name data => exact (h.call_insert name data).1
    | overwrite name data => exact (h.call_overwrite name data).1
  next c _ _ h := by
    cases c with
    | insert name data => exact (h.call_insert name data).2
    | overwrite name data => exact (h.call_overwrite name data).2

end FileStore

end PocketKernel
