import Mathlib
import PocketKernel.Proofs.Archive.Trail
import PocketKernel.Proofs.Files.Sectors
import PocketKernel.Proofs.Files.Slots

/-!
# Filling a table from an archive

The slots are cleared, and then a loop stores the entries of an archive as they come, until the
archive ends, the table is full or something is refused. The loop has no bound of its own: how far
it goes is up to the sizes in the headers. `Filling.pass` is one pass of it, and `Filled` says that
the passes end. Main statement: reading an archive ends and stays inside the image, and so every
load and every mount ends (`reading_ends`).
-/
namespace PocketKernel

def FileStore.answer (stored : Nat) (found : List File × Option StoreError) :
    Except StoreError Nat :=
  match found.2 with
  | some cause => .error cause
  | none => .ok (stored + found.1.length)

namespace SlotTable

/-- The loop between two passes: the slots, how many files were stored, and where it reads next. -/
structure Filling where
  slots : SlotTable
  count : Nat
  offset : Nat

inductive Pass where
  | next (f : Filling)
  | done (slots : SlotTable) (answer : Except StoreError Nat)

namespace Filling

def start (t : SlotTable) : Filling := ⟨t.map fun _ => .blank, 0, 0⟩

def pass (image : Bytes) (f : Filling) : Pass :=
  match Archive.readEntry image f.offset with
  | .error cause => .done f.slots (.error cause)
  | .ok none => .done f.slots (.ok f.count)
  | .ok (some (e, next)) =>
    if f.count = filesMax then .done f.slots (.ok f.count)
    else
      match claimSlot e.name e.data f.slots with
      | .error cause slots => .done slots (.error cause)
      | .ok _ slots => .next ⟨slots, f.count + 1, next⟩

end Filling

/-- The loop stores `n` files and then ends with these slots and this answer. -/
inductive Filled (image : Bytes) :
    (n : Nat) → Filling → (slots : SlotTable) → (answer : Except StoreError Nat) → Prop where
  | done {f : Filling} {slots : SlotTable} {answer : Except StoreError Nat}
      (ends : f.pass image = .done slots answer) : Filled image 0 f slots answer
  | next {n : Nat} {f g : Filling} {slots : SlotTable} {answer : Except StoreError Nat}
      (goes : f.pass image = .next g) (further : Filled image n g slots answer) :
      Filled image (n + 1) f slots answer

variable {image : Bytes} {n : Nat} {f g : Filling} {t slots : SlotTable} {files : List File}
  {answer : Except StoreError Nat}

/-- A pass that goes on has read an entry. -/
theorem readEntry_of_pass (goes : f.pass image = .next g) :
    ∃ e, Archive.readEntry image f.offset = .ok (some (e, g.offset)) := by
  unfold Filling.pass at goes
  split at goes
  · cases goes
  · cases goes
  next e next read =>
  split at goes
  · cases goes
  split at goes
  · cases goes
  · cases goes
    exact ⟨e, read⟩

/-- The loop goes along a trail of the archive. -/
theorem Filled.trail (h : Filled image n f slots answer) :
    ∃ places stop, Archive.Trail image f.offset places stop ∧ places.length = n := by
  induction h with
  | done => exact ⟨[], _, .here _, rfl⟩
  | next goes further ih =>
    obtain ⟨e, read⟩ := readEntry_of_pass goes
    obtain ⟨places, stop, trail, length⟩ := ih
    exact ⟨_, stop, .entry read trail, congrArg (· + 1) length⟩

/-- A new entry is refused for its name or its data, or goes to the slot behind the files. -/
theorem claimSlot_of_represents (h : Represents t files) (room : files.length < t.length)
    (name data : Bytes) :
    match File.create name data with
    | .error cause => claimSlot name data t = .error cause t
    | .ok file => ∃ t', claimSlot name data t = .ok () t' ∧ Represents t' (files ++ [file]) ∧
        t'.length = t.length := by
  rw [claimSlot_eq, h.findIdx?_free, if_pos room]
  cases made : File.create name data with
  | error cause =>
    unfold File.create File.overwrite at made
    split_ifs at made with short small
    · cases made
      rw [if_neg (by omega), if_pos (by omega)]
    · cases made
      rw [if_pos (by omega)]
  | ok file =>
    obtain ⟨short, whole, same⟩ := File.create_eq_ok_iff made
    have stored : file.contents = data := congrArg Archive.Entry.data same
    have small : data.length ≤ fileDataMax := by
      rw [← stored, whole.length_contents]
      exact file.size_le
    rw [if_neg (by omega), if_neg (by omega)]
    exact ⟨_, rfl, h.append (shows_claimed made) room, List.length_modify ..⟩

/-- What ends the loop at once leaves the slots as they are. -/
theorem exists_filled_of_done (h : Represents t files) (size : t.length = filesMax) {offset : Nat}
    {found : List File × Option StoreError} (none : found.1 = [])
    (ends : Filling.pass image ⟨t, files.length, offset⟩ =
      .done t (FileStore.answer files.length found)) :
    ∃ slots, Filled image found.1.length ⟨t, files.length, offset⟩ slots
        (FileStore.answer files.length found) ∧
      Represents slots (files ++ found.1) ∧ slots.length = filesMax := by
  rw [none, List.append_nil]
  exact ⟨t, .done ends, h, size⟩

/-- From any offset on the loop stores the files that the archive has there, and ends as the reading
of the archive does. -/
theorem exists_filled (image : Bytes) (h : Represents t files) (size : t.length = filesMax)
    {room : Nat} (count : files.length + room = filesMax) (offset : Nat) :
    ∃ slots, Filled image (FileStore.readArchive image room offset).1.length
        ⟨t, files.length, offset⟩ slots
        (FileStore.answer files.length (FileStore.readArchive image room offset)) ∧
      Represents slots (files ++ (FileStore.readArchive image room offset).1) ∧
      slots.length = filesMax := by
  fun_induction FileStore.readArchive image room offset generalizing t files with
  | case1 room offset cause read =>
    exact exists_filled_of_done h size rfl (by simp [Filling.pass, read, FileStore.answer])
  | case2 room offset read =>
    exact exists_filled_of_done h size rfl (by simp [Filling.pass, read, FileStore.answer])
  | case3 offset e next read =>
    have full : files.length = filesMax := count
    exact exists_filled_of_done h size rfl (by simp [Filling.pass, read, full, FileStore.answer])
  | case4 offset e next read room cause unfit =>
    have free : files.length ≠ filesMax := by omega
    have claimed := claimSlot_of_represents h (by omega) e.name e.data
    rw [unfit] at claimed
    exact exists_filled_of_done h size rfl <| by
      simp [Filling.pass, read, free, claimed, FileStore.answer]
  | case5 offset e next read room file fit others failure rest ih =>
    have free : files.length ≠ filesMax := by omega
    have claimed := claimSlot_of_represents h (by omega) e.name e.data
    rw [fit] at claimed
    obtain ⟨t', stored, shown, length⟩ := claimed
    have goes : Filling.pass image ⟨t, files.length, offset⟩ =
        .next ⟨t', (files ++ [file]).length, next⟩ := by
      simp [Filling.pass, read, free, stored]
    obtain ⟨slots, filled, represents, last⟩ := ih shown (length.trans size)
      (by rw [List.length_append, List.length_singleton]; omega)
    rw [rest] at filled represents
    refine ⟨slots, ?_, by simpa using represents, last⟩
    have whole := Filled.next goes filled
    simpa [FileStore.answer, Nat.add_assoc, Nat.add_comm 1] using whole

/-- Whatever the slots held, the loop fills them as a load fills the table. -/
theorem filled_load (s : FileStore) (image : Bytes) (size : t.length = filesMax) :
    ∃ slots, Filled image (s.load image).1.files.length (.start t) slots (s.load image).2 ∧
      slots.Stores (s.load image).1 := by
  have cleared : Represents (t.map fun _ => FileSlot.blank) [] := .free (by simp [FileSlot.blank])
  obtain ⟨slots, filled, represents, length⟩ := exists_filled image cleared
    (by rwa [List.length_map]) (Nat.zero_add filesMax) 0
  rw [FileStore.answer, List.length_nil, Nat.zero_add] at filled
  exact ⟨slots, filled, represents, length⟩

end SlotTable

namespace FileStore
open Archive SlotTable

/-- From any offset of any image reading on comes to the end of the archive or to a failure. What it
passes on its way goes forward by whole blocks and lies inside the image, each part behind the parts
before it, so that the image has room for the headers of all of it. Hence the loop that fills any
slots from the image ends, with the slots and the answer of a load, and a mount ends whatever is on
the disk. -/
theorem reading_ends (image : Bytes) (start : Nat) (s : FileStore) {t : SlotTable}
    (size : t.length = filesMax) (d : Disk) (room : sectorCount ≤ d.sectors.size) :
    (∃ places stop, Trail image start places stop ∧ EndsAt image stop) ∧
    (∀ places stop, Trail image start places stop → Orderly image start places) ∧
    (∃ n slots, Filled image n (.start t) slots (s.load image).2 ∧
      slots.Stores (s.load image).1 ∧ n ≤ filesMax ∧ n ≤ image.length / headerSize) ∧
    ∃ u n slots answer, s.mount d = .ok (u, answer) { d with reads := d.reads + 6 } ∧
      Filled d.front n (.start t) slots answer ∧ slots.Stores u ∧ n ≤ filesMax := by
  refine ⟨exists_trail image start, fun _ _ => Trail.orderly, ?_, ?_⟩
  · obtain ⟨slots, filled, stores⟩ := filled_load s image size
    obtain ⟨places, stop, trail, length⟩ := filled.trail
    exact ⟨_, slots, filled, stores, (s.load image).1.files_le, length ▸ trail.orderly.length_le⟩
  · obtain ⟨u, mounted, files⟩ := s.mount_disk d room
    obtain ⟨slots, filled, stores⟩ := filled_load s d.front size
    exact ⟨u, _, slots, _, mounted, filled, ⟨files ▸ stores.represents, stores.length⟩,
      (s.load d.front).1.files_le⟩

def twoFiles : Bytes := records [⟨[0x61], [1]⟩, ⟨[0x62], []⟩]

/-- An archive of two entries, the one with data takes two blocks, and slots that were in use. -/
theorem reading_ends_twoFiles :
    Orderly twoFiles 0 [⟨0, ⟨[0x61], [1]⟩, 1024⟩, ⟨1024, ⟨[0x62], []⟩, 1536⟩] ∧
      EndsAt twoFiles 1536 ∧
      ∃ n slots, Filled twoFiles n (.start [claimed [0x7a] [9], .blank]) slots (.ok 2) ∧
        n ≤ 3 := by
  have first : readEntry twoFiles 0 = .ok (some (⟨[0x61], [1]⟩, 1024)) := by decide +kernel
  have second : readEntry twoFiles 1024 = .ok (some (⟨[0x62], []⟩, 1536)) := by decide +kernel
  have last : readEntry twoFiles 1536 = .ok none := by decide +kernel
  have loaded : (FileStore.empty.load twoFiles).2 = .ok 2 := by decide +kernel
  have length : twoFiles.length / headerSize = 3 := by decide +kernel
  obtain ⟨-, orderly, ⟨n, slots, filled, -, -, bound⟩, -⟩ :=
    reading_ends twoFiles 0 .empty (t := [claimed [0x7a] [9], .blank]) rfl (Disk.blank 6)
      (by decide)
  refine ⟨orderly _ _ (.entry first (.entry second (.here _))), .inl last, n, slots, ?_, ?_⟩
  · rwa [loaded] at filled
  · rwa [length] at bound

end FileStore

end PocketKernel
