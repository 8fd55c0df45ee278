import PocketKernel.Archive.Walk
import PocketKernel.Text.Quoted
import PocketKernel.Text.Utf8

/-!
# The file table

The kernel keeps at most two files of at most 1024 bytes, in the order in which they came. A file
has a buffer of fixed size; a shorter content leaves the buffer's further bytes as they were, and
only `File.contents` is the file. `insert` adds a file under a new name, `overwrite` replaces the
content of a stored one, and `load` fills the table from an archive.
-/
namespace PocketKernel

def filesMax : Nat := 2
def fileDataMax : Nat := 1024
def fileNameMax : Nat := 100

/-- The bytes of the disk that hold the file table: room for that many files of full size. -/
def diskSize : Nat := alignUp (filesMax * (Archive.headerSize + fileDataMax)) 512

structure File where
  name : Bytes
  buffer : Bytes
  size : Nat
  name_lt : name.length < fileNameMax
  size_le : size ≤ fileDataMax

namespace File

def contents (f : File) : Bytes := f.buffer.take f.size

/-- The file with `data` written to the front of its buffer. -/
def overwrite (f : File) (data : Bytes) : Except StoreError File :=
  if h : data.length ≤ fileDataMax then
    .ok { f with buffer := f.buffer.splice 0 data, size := data.length, size_le := h }
  else
    .error (.dataTooLarge data.length)

theorem contents_of_overwrite {f g : File} {data : Bytes} (h : f.overwrite data = .ok g) :
    g.contents = data := by
  unfold overwrite at h
  split at h
  · cases h; simp [contents, Bytes.splice]
  · cases h

theorem name_of_overwrite {f g : File} {data : Bytes} (h : f.overwrite data = .ok g) :
    g.name = f.name := by
  unfold overwrite at h
  split at h
  · cases h; rfl
  · cases h

/-- A new file; a name that is too long is refused before data that are too large. -/
def create (name data : Bytes) : Except StoreError File :=
  if h : name.length < fileNameMax then
    overwrite ⟨name, Bytes.zeros fileDataMax, 0, h, Nat.zero_le _⟩ data
  else
    .error (.nameTooLong name.length)

/-- One line about a file; a name that is not text is not shown. -/
def text (f : File) : String :=
  let name := match Utf8.decode f.name with
    | some name => Quoted.text name
    | none => "\"<non-utf8>\""
  "File \x7b name: " ++ name ++ ", size: " ++ toString f.size ++ " \x7d"

/-- What the table shows of a file. -/
def entry (f : File) : Archive.Entry := ⟨f.name, f.contents⟩

end File

/-- The table, and the buffer through which it is written to a disk. -/
structure FileStore where
  files : List File
  scratch : Bytes
  files_le : files.length ≤ filesMax
  scratch_length : scratch.length = diskSize

namespace FileStore

def empty : FileStore := ⟨[], Bytes.zeros diskSize, Nat.zero_le _, Bytes.length_zeros _⟩

/-- The stored names and contents in order. -/
def entries (s : FileStore) : List Archive.Entry := s.files.map File.entry

/-- The first file of that name. -/
def find? (s : FileStore) (name : Bytes) : Option File := s.files.find? (·.name == name)

/-- Adds a file. Refused in this order: a name in use, a long name, large data, a full table. -/
def insert (s : FileStore) (name data : Bytes) : Except StoreError FileStore :=
  if (s.find? name).isSome then
    .error .duplicate
  else
    match File.create name data with
    | .error e => .error e
    | .ok f =>
      if h : s.files.length < filesMax then
        .ok { s with files := s.files ++ [f], files_le := by simp; omega }
      else
        .error .tableFull

/-- The list with its first file of that name replaced. -/
def replaceFirst (name : Bytes) (g : File) : List File → List File
  | [] => []
  | f :: rest => if f.name == name then g :: rest else f :: replaceFirst name g rest

@[simp] theorem length_replaceFirst (name : Bytes) (g : File) (files : List File) :
    (replaceFirst name g files).length = files.length := by
  induction files with
  | nil => rfl
  | cons f rest ih => unfold replaceFirst; split <;> simp [ih]

/-- Replaces the content of the first file of that name; none when there is no such file. -/
def overwrite (s : FileStore) (name data : Bytes) : Option (Except StoreError FileStore) :=
  match s.find? name with
  | none => none
  | some f =>
    match f.overwrite data with
    | .error e => some (.error e)
    | .ok g =>
      some (.ok { s with
        files := replaceFirst name g s.files
        files_le := by simpa using s.files_le })

/-- The files of an archive from `offset` on, as many as there is room for, and the failure that
ended the reading. With no room left one more entry is read, so a failure there counts. -/
def readArchive (image : Bytes) : (room offset : Nat) → List File × Option StoreError
  | room, offset =>
    match Archive.readEntry image offset with
    | .error e => ([], some e)
    | .ok none => ([], none)
    | .ok (some (entry, next)) =>
      match room with
      | 0 => ([], none)
      | room + 1 =>
        match File.create entry.name entry.data with
        | .error e => ([], some e)
        | .ok f =>
          let (files, failure) := readArchive image room next
          (f :: files, failure)

theorem length_readArchive (image : Bytes) (room offset : Nat) :
    (readArchive image room offset).1.length ≤ room := by
  induction room generalizing offset with
  | zero => unfold readArchive; split <;> simp
  | succ room ih =>
    unfold readArchive
    split <;> try simp
    split <;> simp
    exact ih _

/-- The table of an archive in place of the stored files. A failure keeps the files before it. -/
def load (s : FileStore) (image : Bytes) : FileStore × Except StoreError Nat :=
  let found := readArchive image filesMax 0
  ({ s with files := found.1, files_le := length_readArchive image filesMax 0 },
    match found.2 with
    | some e => .error e
    | none => .ok found.1.length)

/-- The archive of the files in a buffer of the size of `buffer`, cleared before. -/
def encode (s : FileStore) (buffer : Bytes) : Bytes × Except StoreError Nat :=
  Archive.writeAll s.entries (Bytes.zeros buffer.length) 0

theorem length_encode (s : FileStore) (buffer : Bytes) :
    (s.encode buffer).1.length = buffer.length := by
  unfold encode
  rw [Archive.length_writeAll, Bytes.length_zeros]
  intro e he
  obtain ⟨f, _, rfl⟩ := List.mem_map.1 he
  have wide : fileDataMax + 1023 < UInt64.size := by decide
  have := f.size_le
  simp only [File.entry, File.contents, List.length_take]
  omega

end FileStore

end PocketKernel
