import Mathlib
import PocketKernel.Image.Disk
import PocketKernel.Proofs.Files.Tables

/-!
# What a built image shows

A disk image is built through the kernel's own file table, so a list of files that the table takes
is shown in full by a mount and by a listing of the image, provided that an archive can hold their
names. The table does not ask for that: it takes an empty name and a name with a zero character,
which an archive ends at. Main statement: `shows_iff`.
-/
namespace PocketKernel

namespace Utf8

theorem encodeChar_ne_nil (c : Char) : encodeChar c ≠ [] := by
  unfold encodeChar
  dsimp only
  split
  · simp
  split
  · simp
  split <;> simp

/-- Only the zero character is written with a zero byte. -/
theorem zero_mem_encodeChar {c : Char} : (0 : UInt8) ∈ encodeChar c ↔ c = '\x00' := by
  have valid : c.toNat < 0x110000 := by
    have : c.toNat < 0xd800 ∨ 0xdfff < c.toNat ∧ c.toNat < 0x110000 := c.valid
    omega
  have zero : c = '\x00' ↔ c.toNat = 0 := by
    constructor
    · rintro rfl
      rfl
    · intro h
      rw [← Char.ofNat_toNat c, h]
  have byte {n : Nat} (h : n < 256) : (0 : UInt8) = UInt8.ofNat n ↔ n = 0 := by
    rw [← UInt8.toNat_inj, toNat_ofNat_of_lt h]
    exact eq_comm
  rw [zero, encodeChar]
  generalize c.toNat = n at valid
  split
  · rw [List.mem_singleton, byte (by omega)]
  split
  · simp only [List.mem_cons, List.not_mem_nil, or_false]
    rw [byte (by omega), byte (by omega)]
    omega
  split <;> simp only [List.mem_cons, List.not_mem_nil, or_false]
  · rw [byte (by omega), byte (by omega), byte (by omega)]
    omega
  · rw [byte (by omega), byte (by omega), byte (by omega), byte (by omega)]
    omega

theorem encode_eq_nil_iff {s : List Char} : encode s = [] ↔ s = [] := by
  cases s <;> simp [encode, encodeChar_ne_nil]

theorem zero_mem_encode {s : List Char} : (0 : UInt8) ∈ encode s ↔ '\x00' ∈ s := by
  simp [encode, zero_mem_encodeChar]

end Utf8

namespace DiskImage

def ProperName (name : List Char) : Prop := name ≠ [] ∧ '\x00' ∉ name

instance : DecidablePred ProperName := fun name =>
  inferInstanceAs (Decidable (name ≠ [] ∧ '\x00' ∉ name))

def entriesOf (files : List (List Char × Bytes)) : List Archive.Entry :=
  files.map fun f => ⟨Utf8.encode f.1, f.2⟩

/-- A mount of the image and a listing of it give these files. -/
structure Shows (image : Bytes) (files : List (List Char × Bytes)) : Prop where
  mount : ∀ s : FileStore, ∃ t d, s.mount (Disk.ofImage image) = .ok (t, .ok files.length) d ∧
    t.entries = entriesOf files
  list : list image = .ok (files.map fun f => ⟨f.1, f.2.length⟩)

theorem entries_of_storeOf {s t : FileStore} {files : List (List Char × Bytes)}
    (done : storeOf s files = .ok t) : t.entries = s.entries ++ entriesOf files := by
  induction files generalizing s with
  | nil =>
    cases done
    simp [entriesOf]
  | cons f rest ih =>
    unfold storeOf at done
    split at done
    · cases done
    next inserted =>
    simp [ih done, FileStore.entries_of_insert inserted, entriesOf]

theorem sound_of_storeOf {s t : FileStore} {files : List (List Char × Bytes)} (sound : s.Sound)
    (proper : ∀ f ∈ files, ProperName f.1) (done : storeOf s files = .ok t) : t.Sound := by
  induction files generalizing s with
  | nil =>
    cases done
    exact sound
  | cons f rest ih =>
    unfold storeOf at done
    split at done
    · cases done
    next inserted =>
    obtain ⟨live, plain⟩ := proper f List.mem_cons_self
    apply ih (sound.insert _ _ inserted) (fun g hg => proper g (List.mem_cons_of_mem _ hg)) done
    · simpa [Utf8.encode_eq_nil_iff] using live
    · simpa [Utf8.zero_mem_encode] using plain

/-- The image of a table is what a flush leaves on a blank disk. -/
theorem ofStore_eq (s : FileStore) : ofStore s = s.image := by
  have flushed := s.flush_disk (Disk.blank FileStore.sectorCount) (by decide)
  have gone :
      (Disk.blank FileStore.sectorCount).sectors.toList.drop s.imageSectors.length = [] := by
    rw [s.length_imageSectors]
    decide
  rw [ofStore, Action.finalState_of_ok flushed, Disk.image, Disk.replace]
  simp only [List.take_zero, List.nil_append, Nat.zero_add, gone, List.append_nil]
  exact (List.flatMap_def ..).symm.trans s.flatMap_imageSectors

theorem build_eq_ok {files : List (List Char × Bytes)} {image : Bytes}
    (built : build files = .ok image) :
    ∃ s, storeOf .empty files = .ok s ∧ s.image = image := by
  unfold build at built
  cases stored : storeOf .empty files with
  | error e =>
    rw [stored] at built
    cases built
  | ok s =>
    rw [stored] at built
    cases built
    exact ⟨s, rfl, (ofStore_eq s).symm⟩

/-- The image of a table as a disk has that image at its front. -/
theorem front_ofImage (s : FileStore) : (Disk.ofImage s.image).front = s.image := by
  have all : s.imageSectors.take FileStore.sectorCount = s.imageSectors :=
    List.take_of_length_le s.length_imageSectors.le
  have sectors : (Disk.ofImage s.image).sectors.toList = s.imageSectors := rfl
  rw [Disk.front, Disk.bytesFrom, sectors, List.drop_zero, all, s.flatMap_imageSectors]

/-- A mount of the image of a sound table gives the table. -/
theorem mount_ofImage {s : FileStore} (sound : s.Sound) (t : FileStore) :
    ∃ u d, t.mount (Disk.ofImage s.image) = .ok (u, .ok s.files.length) d ∧
      u.entries = s.entries := by
  have room : FileStore.sectorCount ≤ (Disk.ofImage s.image).sectors.size :=
    s.length_imageSectors.ge
  obtain ⟨clean, same⟩ := FileStore.load_image sound t
  obtain ⟨u, mounted, files⟩ := t.mount_disk (Disk.ofImage s.image) room
  rw [front_ofImage] at mounted files
  rw [clean] at mounted
  refine ⟨u, _, mounted, ?_⟩
  rw [← same, FileStore.entries, files, FileStore.entries]

/-- A listing of the image of a sound table shows its entries. -/
theorem list_image {s : FileStore} (sound : s.Sound) :
    list s.image = .ok (s.entries.map fun e => ⟨Utf8.decodeLossy e.name, e.data.length⟩) := by
  obtain ⟨clean, same⟩ := FileStore.load_image sound .empty
  have whole := (FileStore.sound_load .empty s.image).whole
  have listed : list s.image = .ok ((FileStore.empty.load s.image).1.files.map entryOf) := by
    simp [list, clean, Except.map]
  rw [listed, ← same, FileStore.entries, List.map_map]
  refine congrArg Except.ok (List.map_congr_left ?_)
  intro f hf
  simp [entryOf, File.entry, (whole f hf).length_contents]

/-- A built image shows the files it was built from if and only if an archive can hold their
names. -/
theorem shows_iff {files : List (List Char × Bytes)} {image : Bytes}
    (built : build files = .ok image) :
    Shows image files ↔ ∀ f ∈ files, ProperName f.1 := by
  obtain ⟨s, stored, rfl⟩ := build_eq_ok built
  have entries : s.entries = entriesOf files := entries_of_storeOf stored
  constructor
  · intro shows f hf
    obtain ⟨t, d, mounted, held⟩ := shows.mount .empty
    have read : ⟨Utf8.encode f.1, f.2⟩ ∈ t.entries := held ▸ List.mem_map_of_mem hf
    obtain ⟨g, stored, same⟩ := List.mem_map.1 read
    have sound := same ▸ (FileStore.sound_of_mount mounted).entry g stored
    exact ⟨mt Utf8.encode_eq_nil_iff.2 sound.name_ne_nil,
      mt Utf8.zero_mem_encode.2 sound.zero_notMem⟩
  · intro proper
    have sound : s.Sound := sound_of_storeOf FileStore.sound_empty proper stored
    have count : s.files.length = files.length := by
      simpa [FileStore.entries, entriesOf] using congrArg List.length entries
    constructor
    · intro t
      simpa only [count, entries] using mount_ofImage sound t
    · simp [list_image sound, entries, entriesOf, Utf8.decodeLossy_encode]

/-- Two files, one of full size. -/
theorem shows_iff_hello : ∃ image,
    build [("hello.txt".toList, [1, 2]), ("m".toList, List.replicate 1024 0)] = .ok image ∧
      Shows image [("hello.txt".toList, [1, 2]), ("m".toList, List.replicate 1024 0)] := by
  have accepted :
      (build [("hello.txt".toList, [1, 2]), ("m".toList, List.replicate 1024 0)]).isOk = true := by
    decide +kernel
  cases built : build [("hello.txt".toList, [1, 2]), ("m".toList, List.replicate 1024 0)] with
  | error e => rw [built] at accepted; cases accepted
  | ok image => exact ⟨image, rfl, (shows_iff built).2 (by decide)⟩

/-- A file with an empty name goes into an image that holds no file. -/
theorem build_nameless : ∃ image,
    build [([], [1])] = .ok image ∧ list image = .ok [] ∧ ¬ Shows image [([], [1])] := by
  have listed : (build [([], [1])]).map list = .ok (.ok []) := by decide +kernel
  cases built : build [([], [1])] with
  | error e =>
    rw [built] at listed
    cases listed
  | ok image =>
    rw [built] at listed
    have none : list image = .ok [] := Except.ok.inj listed
    refine ⟨image, rfl, none, fun shows => ?_⟩
    have one := none.symm.trans shows.list
    cases one

end DiskImage

end PocketKernel
