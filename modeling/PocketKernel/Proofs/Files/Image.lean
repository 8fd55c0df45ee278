import Mathlib
import PocketKernel.Files.Mount
import PocketKernel.Proofs.Archive.Format

/-!
# The file table as an archive

Encoding writes the records of the files and zeros after them, and loading such an image gives the
same files. `FileStore.Sound` holds of every table that was loaded from an image, since an entry
that is read has a name; it is kept when a file is overwritten or inserted under a proper name.
-/
namespace PocketKernel

namespace File

def Whole (f : File) : Prop := f.buffer.length = fileDataMax

theorem Whole.length_contents {f : File} (h : f.Whole) : f.contents.length = f.size := by
  have := f.size_le
  simp only [Whole] at h
  simp [contents]
  omega

theorem Whole.overwrite {f g : File} {data : Bytes} (h : f.Whole) (ok : f.overwrite data = .ok g) :
    g.Whole := by
  unfold File.overwrite at ok
  split at ok
  · next small =>
    cases ok
    exact Bytes.length_splice_eq h (by omega)
  · cases ok

theorem create_eq_ok_iff {name data : Bytes} {f : File} (h : create name data = .ok f) :
    name.length < fileNameMax ∧ f.Whole ∧ f.entry = ⟨name, data⟩ := by
  unfold create at h
  split at h
  · next short =>
    have blank : Whole ⟨name, Bytes.zeros fileDataMax, 0, short, Nat.zero_le _⟩ :=
      Bytes.length_zeros fileDataMax
    refine ⟨short, blank.overwrite h, ?_⟩
    simp only [entry, contents_of_overwrite h, name_of_overwrite h]
  · cases h

theorem exists_create {name data : Bytes} (hn : name.length < fileNameMax)
    (hd : data.length ≤ fileDataMax) : ∃ f, create name data = .ok f := by
  unfold create overwrite
  rw [dif_pos hn, dif_pos hd]
  exact ⟨_, rfl⟩

/-- A file under a proper name is one that an archive can hold. -/
theorem Whole.sound {f : File} (h : f.Whole) (live : f.name ≠ []) (plain : (0 : UInt8) ∉ f.name) :
    f.entry.Sound := by
  refine ⟨live, plain, f.name_lt, ?_⟩
  have size : fileDataMax < UInt32.size := by decide
  have := f.size_le
  simp only [entry, h.length_contents]
  omega

end File

namespace FileStore

structure Sound (s : FileStore) : Prop where
  entry : ∀ f ∈ s.files, f.entry.Sound
  whole : ∀ f ∈ s.files, f.Whole

theorem sound_empty : empty.Sound := ⟨nofun, nofun⟩

/-- The sizes of whole files are the lengths of their contents. -/
theorem map_size {s : FileStore} (h : ∀ f ∈ s.files, f.Whole) :
    s.files.map File.size = s.entries.map fun e => e.data.length := by
  rw [entries, List.map_map]
  refine List.map_congr_left ?_
  intro f hf
  exact (h f hf).length_contents.symm

/-- Every file takes at most half of the table's bytes. -/
theorem length_record_le (f : File) : (Archive.record f.entry).length ≤ 1536 := by
  have small : f.entry.data.length ≤ 1024 := by
    have := f.size_le
    simp only [fileDataMax] at this
    simp [File.entry, File.contents]
    omega
  have wide : f.entry.data.length + 1023 < UInt64.size := by
    have : 1024 + 1023 < UInt64.size := by decide
    omega
  rw [Archive.length_record f.name_lt wide, Archive.entryLength_eq _ wide]
  omega

theorem length_records_le (files : List File) :
    (Archive.records (files.map File.entry)).length ≤ 1536 * files.length := by
  induction files with
  | nil => simp [Archive.records]
  | cons f rest ih =>
    have first := length_record_le f
    rw [List.map_cons, Archive.records_cons, List.length_append, List.length_cons]
    omega

/-- The image of a table: its records, and zeros up to the size of the table's part of a disk. -/
def image (s : FileStore) : Bytes :=
  Archive.records s.entries ++ Bytes.zeros (diskSize - (Archive.records s.entries).length)

theorem length_records_entries_le (s : FileStore) :
    (Archive.records s.entries).length ≤ diskSize := by
  have each := length_records_le s.files
  have count := s.files_le
  have size : diskSize = 3072 := by decide
  simp only [filesMax] at count
  simp only [entries]
  omega

theorem length_image (s : FileStore) : s.image.length = diskSize := by
  have fits := s.length_records_entries_le
  simp only [image, List.length_append, Bytes.length_zeros]
  omega

theorem small_of_mem_entries {s : FileStore} {e : Archive.Entry} (h : e ∈ s.entries) :
    e.data.length ≤ fileDataMax := by
  obtain ⟨f, -, rfl⟩ := List.mem_map.1 h
  have size := f.size_le
  simp only [File.entry, File.contents, List.length_take]
  omega

/-- Files are too short for the rounding of their sizes to wrap. -/
theorem wide_of_mem_entries {s : FileStore} {e : Archive.Entry} (h : e ∈ s.entries) :
    e.data.length + 1023 < UInt64.size := by
  have wide : fileDataMax + 1023 < UInt64.size := by decide
  have small := small_of_mem_entries h
  omega

/-- Encoding never fails and does not depend on what the buffer held. -/
theorem encode_eq (s : FileStore) {buffer : Bytes} (h : buffer.length = diskSize) :
    s.encode buffer = (s.image, .ok (Archive.records s.entries).length) := by
  have names : ∀ e ∈ s.entries, e.name.length < Archive.nameField := by
    intro e he
    obtain ⟨f, -, rfl⟩ := List.mem_map.1 he
    exact f.name_lt
  have written := Archive.writeAll_zeros s.entries [] [] diskSize names
    (fun _ => wide_of_mem_entries) s.length_records_entries_le
  simpa [encode, h, image] using written

/-- Loading an archive of sound entries, as many as there is room for, gives the entries. -/
theorem readArchive_records (entries : List Archive.Entry) (pre : Bytes) (room n : Nat)
    (sound : ∀ e ∈ entries, e.Sound) (small : ∀ e ∈ entries, e.data.length ≤ fileDataMax)
    (fits : entries.length ≤ room) :
    (readArchive (pre ++ Archive.records entries ++ Bytes.zeros n) room pre.length).2 = none ∧
      (readArchive (pre ++ Archive.records entries ++ Bytes.zeros n) room pre.length).1.map
        File.entry = entries := by
  induction entries generalizing pre room with
  | nil =>
    have stop := Archive.readEntry_zeros pre n
    unfold readArchive
    simp [Archive.records, stop]
  | cons e rest ih =>
    obtain ⟨room, rfl⟩ : ∃ k, room = k + 1 := ⟨room - 1, by simp at fits; omega⟩
    have first := Archive.readEntry_record pre (Archive.records rest ++ Bytes.zeros n)
      (sound e List.mem_cons_self)
    have others := ih (pre ++ Archive.record e) room
      (fun e he => sound e (List.mem_cons_of_mem _ he))
      (fun e he => small e (List.mem_cons_of_mem _ he)) (by simpa using fits)
    obtain ⟨f, made⟩ := File.exists_create (sound e List.mem_cons_self).name_lt
      (small e List.mem_cons_self)
    have same : f.entry = e := (File.create_eq_ok_iff made).2.2
    rw [Archive.records_cons]
    simp only [List.append_assoc, List.length_append] at first others ⊢
    unfold readArchive
    rw [first]
    simp only [made, List.map_cons, same]
    exact ⟨others.1, congrArg (e :: ·) others.2⟩

/-- The image of a sound table loads as the table. -/
theorem load_image {s : FileStore} (h : s.Sound) (t : FileStore) :
    (t.load s.image).2 = .ok s.files.length ∧ (t.load s.image).1.entries = s.entries := by
  have sound : ∀ e ∈ s.entries, e.Sound := by
    intro e he
    obtain ⟨f, hf, rfl⟩ := List.mem_map.1 he
    exact h.entry f hf
  have fits : s.entries.length ≤ filesMax := by simpa [entries] using s.files_le
  obtain ⟨clean, same⟩ := readArchive_records s.entries [] filesMax
    (diskSize - (Archive.records s.entries).length) sound (fun _ => small_of_mem_entries) fits
  rw [List.nil_append, List.length_nil, ← image] at clean same
  have count : (readArchive s.image filesMax 0).1.length = s.files.length := by
    simpa [entries] using congrArg List.length same
  simp only [load, clean, count, entries] at same ⊢
  exact ⟨trivial, same⟩

theorem readArchive_sound (image : Bytes) (room offset : Nat) :
    ∀ f ∈ (readArchive image room offset).1, f.entry.Sound ∧ f.Whole := by
  induction room generalizing offset with
  | zero =>
    unfold readArchive
    split <;> simp
  | succ room ih =>
    unfold readArchive
    split
    · simp
    · simp
    next e next found =>
    dsimp only
    split
    · simp
    next f made =>
    obtain ⟨short, whole, same⟩ := File.create_eq_ok_iff made
    intro g hg
    rcases List.mem_cons.1 hg with rfl | later
    · rw [same]
      exact ⟨.of_readEntry found short, whole⟩
    · exact ih _ g later

/-- Whatever is loaded is sound. -/
theorem sound_load (s : FileStore) (image : Bytes) : (s.load image).1.Sound where
  entry f hf := (readArchive_sound image filesMax 0 f hf).1
  whole f hf := (readArchive_sound image filesMax 0 f hf).2

/-- An insert puts a new file behind the others. -/
theorem insert_eq_ok {s t : FileStore} {name data : Bytes} (done : s.insert name data = .ok t) :
    ∃ f, File.create name data = .ok f ∧ t.files = s.files ++ [f] := by
  unfold FileStore.insert at done
  split at done
  · cases done
  split at done
  · cases done
  next f made =>
  split at done
  · cases done
    exact ⟨f, made, rfl⟩
  · cases done

theorem entries_of_insert {s t : FileStore} {name data : Bytes}
    (done : s.insert name data = .ok t) : t.entries = s.entries ++ [⟨name, data⟩] := by
  obtain ⟨f, made, files⟩ := insert_eq_ok done
  simp [entries, files, (File.create_eq_ok_iff made).2.2]

theorem Sound.insert {s t : FileStore} (h : s.Sound) {name data : Bytes} (live : name ≠ [])
    (plain : (0 : UInt8) ∉ name) (done : s.insert name data = .ok t) : t.Sound := by
  obtain ⟨f, made, files⟩ := insert_eq_ok done
  obtain ⟨-, whole, same⟩ := File.create_eq_ok_iff made
  have named : f.name = name := congrArg Archive.Entry.name same
  have sound := whole.sound (named ▸ live) (named ▸ plain)
  constructor <;> simp only [files, List.mem_append, List.mem_singleton] <;> rintro g (old | rfl)
  · exact h.entry g old
  · exact sound
  · exact h.whole g old
  · exact whole

theorem mem_replaceFirst {name : Bytes} {f g : File} {files : List File}
    (h : f ∈ replaceFirst name g files) : f = g ∨ f ∈ files := by
  induction files with
  | nil => simp [replaceFirst] at h
  | cons first rest ih =>
    unfold replaceFirst at h
    split at h
    · rcases List.mem_cons.1 h with rfl | later
      · exact .inl rfl
      · exact .inr (List.mem_cons_of_mem _ later)
    · rcases List.mem_cons.1 h with rfl | later
      · exact .inr List.mem_cons_self
      · exact (ih later).imp_right (List.mem_cons_of_mem _)

/-- The files after an overwrite: one may have been given the data. -/
theorem mem_overwrite {s t : FileStore} {name data : Bytes} {g : File}
    (ok : s.overwrite name data = some (.ok t)) (h : g ∈ t.files) :
    g ∈ s.files ∨ ∃ f ∈ s.files, f.overwrite data = .ok g := by
  unfold FileStore.overwrite at ok
  split at ok
  · cases ok
  next f found =>
  split at ok
  · cases ok
  next new written =>
  cases ok
  rcases mem_replaceFirst h with rfl | old
  · exact .inr ⟨f, List.mem_of_find?_eq_some found, written⟩
  · exact .inl old

theorem sound_of_overwrite {f g : File} {data : Bytes} (sound : f.entry.Sound) (whole : f.Whole)
    (written : f.overwrite data = .ok g) : g.entry.Sound := by
  have named : g.name = f.name := File.name_of_overwrite written
  exact (whole.overwrite written).sound (named ▸ sound.name_ne_nil) (named ▸ sound.zero_notMem)

/-- Overwriting a file keeps the names and so the soundness. -/
theorem Sound.overwrite {s t : FileStore} {name data : Bytes} (h : s.Sound)
    (ok : s.overwrite name data = some (.ok t)) : t.Sound := by
  constructor
  · intro g hg
    rcases mem_overwrite ok hg with old | ⟨f, stored, written⟩
    · exact h.entry g old
    · exact sound_of_overwrite (h.entry f stored) (h.whole f stored) written
  · intro g hg
    rcases mem_overwrite ok hg with old | ⟨f, stored, written⟩
    · exact h.whole g old
    · exact (h.whole f stored).overwrite written

end FileStore

end PocketKernel
