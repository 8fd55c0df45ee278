import Mathlib
import PocketKernel.Proofs.Action
import PocketKernel.Proofs.Archive.RoundTrip
import PocketKernel.Proofs.Files.Calls

/-!
# Names of stored files

A file is found by its name, so it can be reached only if no file before it has the same name. An
insert asks for that and an overwrite keeps the names. Loading an archive does not ask: its entries
are stored as they come, and what an archive with two entries of one name leaves behind is a file
that no lookup finds. Main statement: the names of a table differ exactly if those of the last
archive differ, and exactly then every file is found (`distinctNames_iff`).
-/
namespace PocketKernel

def Archive.Entry.FitsFile (e : Archive.Entry) : Prop :=
  e.name.length < fileNameMax ∧ e.data.length ≤ fileDataMax

instance : DecidablePred Archive.Entry.FitsFile := fun e =>
  inferInstanceAs (Decidable (e.name.length < fileNameMax ∧ e.data.length ≤ fileDataMax))

/-- The first entries of an archive, up to one that cannot be a file and as many as there is room
for. -/
def Archive.leading (image : Bytes) : List Archive.Entry :=
  (((walk image 0).1.map Prod.fst).takeWhile fun e => decide e.FitsFile).take filesMax

namespace FileStore

def names (s : FileStore) : List Bytes := s.files.map File.name

def DistinctNames (s : FileStore) : Prop := s.names.Nodup

def AllFound (s : FileStore) : Prop :=
  ∀ i f, s.files[i]? = some f → s.files.findIdx? (·.name == f.name) = some i

/-- The tables that calls lead to from a new one, each with the entries of the last archive that was
loaded or mounted, whatever the archive and the result. A mount keeps the bytes that it read in the
scratch buffer. A refused insert or overwrite leaves the table as it is. -/
inductive Reached : List Archive.Entry → FileStore → Prop where
  | new : Reached [] .empty
  | load {archive : List Archive.Entry} {s : FileStore} (before : Reached archive s)
      (image : Bytes) : Reached (Archive.leading image) (s.load image).1
  | mount {D : Type} [BlockDevice D] {archive : List Archive.Entry} {s t : FileStore} {d d' : D}
      {result : Except StoreError Nat} (before : Reached archive s)
      (done : s.mount d = .ok (t, result) d') : Reached (Archive.leading t.scratch) t
  | insert {archive : List Archive.Entry} {s t : FileStore} {name data : Bytes}
      (before : Reached archive s) (done : s.insert name data = .ok t) : Reached archive t
  | overwrite {archive : List Archive.Entry} {s t : FileStore} {name data : Bytes}
      (before : Reached archive s) (done : s.overwrite name data = some (.ok t)) :
      Reached archive t

/-! ## What an archive leaves -/

theorem entries_readArchive (image : Bytes) (room offset : Nat) :
    (readArchive image room offset).1.map File.entry =
      (((Archive.walk image offset).1.map Prod.fst).takeWhile fun e => decide e.FitsFile).take
        room := by
  induction room generalizing offset with
  | zero =>
    unfold readArchive
    split <;> rfl
  | succ room ih =>
    unfold readArchive
    match found : Archive.readEntry image offset with
    | .error cause =>
      rw [Archive.walk_of_error found]
      rfl
    | .ok none =>
      rw [Archive.walk_of_none found]
      rfl
    | .ok (some (e, next)) =>
      rw [Archive.walk_of_some found, List.map_cons]
      dsimp only
      cases made : File.create e.name e.data with
      | error cause =>
        have unfit : ¬ e.FitsFile := fun fits => by
          obtain ⟨f, done⟩ := File.exists_create fits.1 fits.2
          rw [done] at made
          cases made
        rw [List.takeWhile_cons_of_neg (by simpa using unfit)]
        rfl
      | ok f =>
        obtain ⟨short, whole, same⟩ := File.create_eq_ok_iff made
        have data : f.contents = e.data := congrArg Archive.Entry.data same
        have fits : e.FitsFile := by
          refine ⟨short, ?_⟩
          rw [← data, whole.length_contents]
          exact f.size_le
        rw [List.takeWhile_cons_of_pos (by simpa using fits), List.take_succ_cons, ← ih,
          List.map_cons, same]

/-- The table is that of the leading entries of the archive, whether the load fails or not. -/
theorem entries_load (s : FileStore) (image : Bytes) :
    (s.load image).1.entries = Archive.leading image :=
  entries_readArchive image filesMax 0

theorem entries_mount {D : Type} [BlockDevice D] {s t : FileStore} {d d' : D}
    {result : Except StoreError Nat} (done : s.mount d = .ok (t, result) d') :
    t.entries = Archive.leading t.scratch := by
  obtain ⟨image, d₁, -, loaded⟩ := Action.bind_eq_ok.1 done
  cases loaded
  exact entries_load _ image.1

/-! ## Different names -/

theorem names_eq (s : FileStore) : s.names = s.entries.map (·.name) := by
  rw [names, entries, List.map_map]
  rfl

/-- A new file has a name that no stored file has. -/
theorem names_of_insert {s t : FileStore} {name data : Bytes} (done : s.insert name data = .ok t) :
    t.names = s.names ++ [name] ∧ name ∉ s.names := by
  obtain ⟨fresh, -⟩ := FileList.refusal?_eq_none.1 (refusal?_of_ok done)
  rw [names_eq, names_eq, entries_of_insert done, List.map_append]
  exact ⟨rfl, fresh⟩

theorem names_of_overwrite {s t : FileStore} {name data : Bytes}
    (done : s.overwrite name data = some (.ok t)) : t.names = s.names := by
  cases found : s.files.findIdx? (·.name == name) with
  | none =>
    rw [overwrite_of_none data found] at done
    cases done
  | some i =>
    obtain ⟨f, stored, -, ⟨-, refused⟩ | ⟨-, g, u, written, changed, files⟩⟩ :=
      overwrite_of_some data found
    · rw [refused] at done
      cases done
    · rw [changed] at done
      cases done
      rw [names, files, map_set_eq stored (File.name_of_overwrite written), names]

theorem allFound_iff (s : FileStore) : s.AllFound ↔ s.DistinctNames := by
  rw [DistinctNames, List.Nodup, List.pairwise_iff_getElem]
  constructor
  · intro found i j hi hj before same
    have second := found j _ (List.getElem?_eq_getElem (by simpa [names] using hj))
    obtain ⟨_, -, none_before⟩ := List.findIdx?_eq_some_iff_getElem.1 second
    refine none_before i before ?_
    simpa [names] using same
  · intro distinct i f stored
    obtain ⟨inside, rfl⟩ := List.getElem?_eq_some_iff.1 stored
    refine List.findIdx?_eq_some_iff_getElem.2 ⟨inside, beq_self_eq_true _, ?_⟩
    intro j before
    have bound {k : Nat} (h : k < s.files.length) : k < s.names.length := by simpa [names] using h
    simpa [names] using distinct j i (bound (by omega)) (bound inside) before

theorem distinctNames_iff_entries (s : FileStore) :
    s.DistinctNames ↔ (s.entries.map (·.name)).Nodup := by
  rw [DistinctNames, names_eq]

/-- The names of a table differ exactly if those of the last archive differ. -/
theorem distinctNames_iff {archive : List Archive.Entry} {s : FileStore} (run : Reached archive s) :
    (s.DistinctNames ↔ (archive.map (·.name)).Nodup) ∧ (s.DistinctNames ↔ s.AllFound) := by
  refine ⟨?_, s.allFound_iff.symm⟩
  induction run with
  | new => rfl
  | load before image => rw [distinctNames_iff_entries, entries_load]
  | mount before done => rw [distinctNames_iff_entries, entries_mount done]
  | insert before done ih =>
    obtain ⟨names, fresh⟩ := names_of_insert done
    rw [← ih, DistinctNames, names, ← List.concat_eq_append, List.nodup_concat, DistinctNames]
    exact and_iff_right fresh
  | overwrite before done ih => rw [← ih, DistinctNames, names_of_overwrite done, DistinctNames]

/-- An archive with one file, and a file inserted after it. -/
theorem distinctNames_iff_inserted : ∃ t : FileStore,
    (FileStore.empty.load (Archive.records [⟨[0x61], [1]⟩])).1.insert [0x62] [2] = .ok t ∧
      t.DistinctNames ∧ t.AllFound := by
  have accepted : ((FileStore.empty.load (Archive.records [⟨[0x61], [1]⟩])).1.insert
      [0x62] [2]).isOk = true := by decide +kernel
  cases inserted :
      (FileStore.empty.load (Archive.records [⟨[0x61], [1]⟩])).1.insert [0x62] [2] with
  | error cause =>
    rw [inserted] at accepted
    cases accepted
  | ok t =>
    obtain ⟨kept, found⟩ := distinctNames_iff (.insert (.load .new _) inserted)
    have distinct : t.DistinctNames := by
      rw [kept, ← entries_load .empty]
      decide +kernel
    exact ⟨t, rfl, distinct, found.1 distinct⟩

def twoOfOneName : Bytes := Archive.records [⟨[0x61], [1]⟩, ⟨[0x61], [2]⟩]

/-- An archive with two files of one name is loaded, and a lookup finds only the first. -/
theorem load_equalNames : ∃ s : FileStore, Reached (Archive.leading twoOfOneName) s ∧
    FileStore.empty.load twoOfOneName = (s, .ok 2) ∧
    s.entries = [⟨[0x61], [1]⟩, ⟨[0x61], [2]⟩] ∧ ¬ s.DistinctNames ∧
    (s.find? [0x61]).map File.contents = some [1] ∧ ¬ s.AllFound := by
  have run := Reached.load .new twoOfOneName
  have loaded : (FileStore.empty.load twoOfOneName).2 = .ok 2 := by decide +kernel
  have stored : (FileStore.empty.load twoOfOneName).1.entries =
      [⟨[0x61], [1]⟩, ⟨[0x61], [2]⟩] := by decide +kernel
  have first : ((FileStore.empty.load twoOfOneName).1.find? [0x61]).map File.contents =
      some [1] := by decide +kernel
  generalize FileStore.empty.load twoOfOneName = found at *
  obtain ⟨s, answer⟩ := found
  cases loaded
  have same : ¬ s.DistinctNames := by
    rw [distinctNames_iff_entries, stored]
    decide
  exact ⟨s, run, rfl, stored, same, first, mt s.allFound_iff.1 same⟩

end FileStore

end PocketKernel
