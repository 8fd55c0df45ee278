import Mathlib
import PocketKernel.Archive.Walk
import PocketKernel.Proofs.Archive.Octal

/-!
# The format of an archive

`record` is an entry as it stands in an archive: header, data and zeros up to the room it takes.
Main statements: a reader at a record finds its entry and the end of the record, whatever stands
before and after it (`readEntry_record`), and a writer over zeros leaves exactly the record
(`writeEntry_zeros`). Whole archives are concatenations of records.
-/
namespace PocketKernel.Archive

/-- An entry that can be told from the end of an archive and whose name ends where it should. -/
structure Entry.Sound (e : Entry) : Prop where
  name_ne_nil : e.name ≠ []
  zero_notMem : (0 : UInt8) ∉ e.name
  name_lt : e.name.length < nameField
  data_lt : e.data.length < UInt32.size

/-- The fields of a header but the checksum, each with its place. -/
def fields (name : Bytes) (size : Nat) : List (Nat × Bytes) :=
  [(0, name), (100, mode), (257, magic), (263, version), (156, regularFile),
    (124, Octal.field 12 (size % UInt32.size))]

/-- The header over zeros with all fields but the checksum. -/
def plainHeader (name : Bytes) (size : Nat) : Bytes :=
  (Bytes.zeros headerSize).patch (fields name size)

def header (name : Bytes) (size : Nat) : Bytes := stamp (Bytes.zeros headerSize) name size

theorem header_eq (name : Bytes) (size : Nat) :
    header name size = (plainHeader name size).splice 148
      (Octal.field 7 (checksum (plainHeader name size)).toNat ++ [32]) := rfl

def padding (size : Nat) : Bytes := Bytes.zeros (entryLength size - (headerSize + size))

def record (e : Entry) : Bytes :=
  header e.name e.data.length ++ e.data ++ padding e.data.length

def records (entries : List Entry) : Bytes := entries.flatMap record

@[simp] theorem length_field (width n : Nat) :
    (Octal.field width n).length = width - 1 + 1 := by
  simp [Octal.field]

@[simp] theorem length_mode : mode.length = 6 := by decide
@[simp] theorem length_magic : magic.length = 5 := by decide
@[simp] theorem length_version : version.length = 2 := by decide
@[simp] theorem length_regularFile : regularFile.length = 1 := by decide

section Header
variable {name : Bytes} (hn : name.length < nameField) (size : Nat)
include hn

theorem fields_fit :
    ∀ p ∈ fields name size, p.1 + p.2.length ≤ (Bytes.zeros headerSize).length := by
  simp only [nameField] at hn
  simp [fields, headerSize]
  omega

theorem length_plainHeader : (plainHeader name size).length = 512 :=
  (Bytes.length_patch _ _ (fields_fit hn size)).trans (Bytes.length_zeros _)

theorem length_header : (header name size).length = 512 :=
  length_stamp _ _ _ (Bytes.length_zeros _) hn

/-- A field beside the checksum is that of the header without a checksum. -/
theorem range_header {start n : Nat} (apart : start + n ≤ 148 ∨ 156 ≤ start) :
    ((header name size).drop start).take n = ((plainHeader name size).drop start).take n := by
  have length := length_plainHeader hn size
  rw [header_eq, Bytes.range_splice_of_disjoint _ _ (by simp [length]) (by simpa using apart)]

theorem name_header : (header name size).take name.length = name := by
  have short := hn
  simp only [nameField] at short
  have whole := Bytes.range_patch (Bytes.zeros headerSize) name 0 [] (fields name size).tail
    (fields_fit hn size) (by simp [fields]; omega)
  have apart : 0 + name.length ≤ 148 ∨ 156 ≤ 0 := by omega
  have front := range_header hn size apart
  simp only [List.drop_zero] at whole front
  exact front.trans whole

/-- The name is followed by zeros to the end of its field. -/
theorem name_end_header {i : Nat} (above : name.length ≤ i) (inside : i < 100) :
    (header name size)[i]? = some 0 := by
  have untouched := Bytes.range_patch_of_disjoint (Bytes.zeros headerSize) (fields name size) i 1
    (fields_fit hn size) (by simp [fields]; omega)
  have apart : i + 1 ≤ 148 ∨ 156 ≤ i := by omega
  have field := (range_header hn size apart).trans untouched
  have first := congrArg (fun xs : Bytes => xs[0]?) field
  simp only [Bytes.getElem?_range, Nat.lt_add_one, if_true, Nat.add_zero] at first
  rw [first, Bytes.zeros, List.getElem?_replicate, if_pos (inside.trans (by decide))]

theorem magic_header : ((header name size).drop 257).take 5 = magic := by
  rw [range_header hn size (by omega)]
  exact Bytes.range_patch (Bytes.zeros headerSize) magic 257 [(0, name), (100, mode)] _
    (fields_fit hn size) (by simp)

theorem size_header :
    ((header name size).drop 124).take 12 = Octal.field 12 (size % UInt32.size) := by
  rw [range_header hn size (by omega)]
  exact Bytes.range_patch (Bytes.zeros headerSize) (Octal.field 12 _) 124
    [(0, name), (100, mode), (257, magic), (263, version), (156, regularFile)] []
    (fields_fit hn size) (by simp)

omit hn in
/-- A checksum of 512 bytes fits in six octal digits. -/
theorem checksum_lt {bytes : Bytes} (h : bytes.length = 512) : (checksum bytes).toNat < 8 ^ 6 := by
  have bound := Bytes.total_le (bytes.splice 148 (List.replicate 8 32))
  rw [Bytes.length_splice _ _ _ (by simp [h]), h] at bound
  rw [checksum, Bytes.toNat_foldl_add]
  refine (Nat.mod_le _ _).trans_lt ?_
  rw [UInt32.toNat_zero]
  omega

/-- The checksum field denotes the checksum of the whole header. -/
theorem checksum_header :
    Octal.parse (((header name size).drop 148).take 8) = checksum (header name size) := by
  have length := length_plainHeader hn size
  have small := checksum_lt length
  have field : ((header name size).drop 148).take 8 =
      Octal.field 7 (checksum (plainHeader name size)).toNat ++ [32] := by
    have written := Bytes.range_splice (plainHeader name size)
      (Octal.field 7 (checksum (plainHeader name size)).toNat ++ [32]) 148 (by simp [length])
    simpa [header_eq] using written
  have same : checksum (header name size) = checksum (plainHeader name size) := by
    rw [header_eq, checksum, Bytes.splice_splice _ _ _ _ (by simp [length]) (by simp), checksum]
  rw [field, same]
  exact UInt32.toNat_inj.1 (Octal.parse_field_seven small [32])

/-- A reader takes the name up to the first zero of its field. -/
theorem takeWhile_header (hz : (0 : UInt8) ∉ name) :
    ((header name size).take nameField).takeWhile (· != 0) = name := by
  have field : (header name size).take nameField = name ++ Bytes.zeros (100 - name.length) := by
    apply List.ext_getElem?
    intro i
    rw [List.getElem?_append, List.getElem?_take, nameField]
    by_cases low : i < name.length
    · rw [if_pos (by simp only [nameField] at hn; omega), if_pos low]
      conv_rhs => rw [← name_header hn size]
      rw [List.getElem?_take, if_pos low]
    · rw [if_neg low, Bytes.zeros, List.getElem?_replicate]
      by_cases inside : i < 100
      · rw [if_pos inside, if_pos (by omega), name_end_header hn size (by omega) inside]
      · rw [if_neg inside, if_neg (by omega)]
  rw [field, List.takeWhile_append_of_pos]
  · cases h : 100 - name.length <;> simp [Bytes.zeros, List.replicate_succ]
  · intro b hb
    simpa using fun zero : b = 0 => hz (zero ▸ hb)

end Header

/-! ## Records -/

theorem le_entryLength {size : Nat} (h : size + 1023 < UInt64.size) :
    headerSize + size ≤ entryLength size := by
  rw [entryLength_eq size h, headerSize]
  omega

theorem length_record {e : Entry} (hn : e.name.length < nameField)
    (hd : e.data.length + 1023 < UInt64.size) :
    (record e).length = entryLength e.data.length := by
  have room := le_entryLength hd
  simp only [record, padding, List.length_append, length_header hn, Bytes.length_zeros]
  simp only [headerSize] at room ⊢
  omega

theorem Entry.Sound.wide {e : Entry} (h : e.Sound) : e.data.length + 1023 < UInt64.size := by
  have small : UInt32.size + 1023 < UInt64.size := by decide
  have := h.data_lt
  omega

/-- At a record the reader finds its entry, and the end of the record as the next offset. -/
theorem readEntry_record (pre post : Bytes) {e : Entry} (h : e.Sound) :
    readEntry (pre ++ record e ++ post) pre.length =
      .ok (some (e, pre.length + (record e).length)) := by
  obtain ⟨name, data⟩ := e
  have length := length_record h.name_lt h.wide
  have room := le_entryLength h.wide
  have header_length := length_header h.name_lt data.length
  simp only at length room
  have head : (pre ++ record ⟨name, data⟩ ++ post).slice? pre.length headerSize =
      some (header name data.length) := by
    have found := Bytes.slice?_append pre (record ⟨name, data⟩) post 0 headerSize (by omega)
    rw [Nat.add_zero, List.drop_zero] at found
    rw [found, record, List.append_assoc, headerSize, ← header_length, List.take_left]
  have body : (pre ++ record ⟨name, data⟩ ++ post).slice? (pre.length + headerSize) data.length =
      some data := by
    have found := Bytes.slice?_append pre (record ⟨name, data⟩) post headerSize data.length
      (by omega)
    rw [found, record, List.append_assoc, headerSize, ← header_length, List.drop_left,
      List.take_left]
  have live : ((header name data.length).headD 0 == 0) = false := by
    obtain ⟨b, rest, rfl⟩ := List.exists_cons_of_ne_nil h.name_ne_nil
    have front := name_header h.name_lt data.length
    cases stamped : header (b :: rest) data.length with
    | nil => rw [stamped] at front; simp at front
    | cons c others =>
      rw [stamped] at front
      obtain ⟨rfl, -⟩ := List.cons.inj front
      simpa using fun zero : c = 0 => h.zero_notMem (zero ▸ List.mem_cons_self)
  have size : (Octal.parse (((header name data.length).drop 124).take 12)).toNat = data.length := by
    rw [size_header h.name_lt, Nat.mod_eq_of_lt h.data_lt]
    exact Octal.parse_field_twelve h.data_lt
  unfold readEntry
  simp only [head, live, magic_header h.name_lt, checksum_header h.name_lt, size, body,
    takeWhile_header h.name_lt _ h.zero_notMem, bne_self_eq_false, Bool.false_eq_true, if_false,
    length]

/-- What an entry that is read has passed. -/
theorem readEntry_eq_some {image : Bytes} {offset next : Nat} {e : Entry}
    (h : readEntry image offset = .ok (some (e, next))) :
    ∃ header, image.slice? offset headerSize = some header ∧ header.headD 0 ≠ 0 ∧
      (header.drop 257).take 5 = magic ∧
      Octal.parse ((header.drop 148).take 8) = checksum header ∧
      image.slice? (offset + headerSize) (Octal.parse ((header.drop 124).take 12)).toNat =
        some e.data ∧
      e.name = (header.take nameField).takeWhile (· != 0) := by
  unfold readEntry at h
  split at h
  · cases h
  · next header found =>
    split at h
    · cases h
    next live =>
    split at h
    · cases h
    next marked =>
    split at h
    · cases h
    next summed =>
    dsimp only at h
    split at h
    · cases h
    next data present =>
    cases h
    exact ⟨header, found, by simpa using live, by simpa using marked, by simpa using summed,
      present, rfl⟩

/-- An entry that is read has a name, and the name ends at its first zero. -/
theorem Entry.Sound.of_readEntry {image : Bytes} {offset next : Nat} {e : Entry}
    (h : readEntry image offset = .ok (some (e, next))) (hn : e.name.length < nameField) :
    e.Sound := by
  have small := (bounds_of_readEntry h).2.1
  obtain ⟨header, -, live, -, -, -, named⟩ := readEntry_eq_some h
  refine ⟨?_, ?_, hn, small⟩
  · cases header with
    | nil => simp at live
    | cons b rest =>
      rw [List.headD_cons] at live
      rw [named, nameField, List.take_succ_cons, List.takeWhile_cons_of_pos (by simpa using live)]
      exact List.cons_ne_nil _ _
  · intro zero
    rw [named] at zero
    simpa using List.mem_takeWhile_imp zero

/-- At zeros, or where no header fits any more, the archive ends. -/
theorem readEntry_zeros (pre : Bytes) (n : Nat) :
    readEntry (pre ++ Bytes.zeros n) pre.length = .ok none := by
  unfold readEntry
  cases found : (pre ++ Bytes.zeros n).slice? pre.length headerSize with
  | none => rfl
  | some header =>
    have zero : header.headD 0 = 0 := by
      unfold Bytes.slice? at found
      split at found
      · cases found
        rw [List.drop_left, Bytes.take_zeros]
        cases min headerSize n <;> rfl
      · cases found
    simp only [zero, beq_self_eq_true, if_true]

/-- Over zeros a writer leaves the record of its entry, and zeros after it. -/
theorem writeEntry_zeros (pre post : Bytes) (n : Nat) {e : Entry} (hn : e.name.length < nameField)
    (hd : e.data.length + 1023 < UInt64.size) (room : entryLength e.data.length ≤ n) :
    writeEntry (pre ++ Bytes.zeros n ++ post) pre.length e.name e.data =
      .ok (pre ++ record e ++ Bytes.zeros (n - entryLength e.data.length) ++ post,
        pre.length + entryLength e.data.length) := by
  obtain ⟨name, data⟩ := e
  simp only at hn hd room ⊢
  have inside := le_entryLength hd
  have header_length := length_header hn data.length
  simp only [headerSize] at inside
  have blank : ((pre ++ Bytes.zeros n ++ post).drop pre.length).take headerSize =
      Bytes.zeros headerSize := by
    have found := Bytes.range_append pre (Bytes.zeros n) post 0 headerSize
      (by simp [headerSize]; omega)
    rw [Nat.add_zero, List.drop_zero, Bytes.take_zeros] at found
    rw [found, headerSize, Nat.min_eq_left (by omega)]
  have stamped : (pre ++ Bytes.zeros n ++ post).splice pre.length (header name data.length) =
      pre ++ (header name data.length ++ Bytes.zeros (n - 512)) ++ post := by
    have placed := Bytes.splice_append pre (Bytes.zeros n) post (header name data.length) 0
      (by rw [header_length, Bytes.length_zeros]; omega)
    rwa [Nat.add_zero, Bytes.splice_zeros, header_length] at placed
  have filled : (pre ++ (header name data.length ++ Bytes.zeros (n - 512)) ++ post).splice
      (pre.length + headerSize) data =
      pre ++ (header name data.length ++ data ++ Bytes.zeros (n - 512 - data.length)) ++ post := by
    have written := Bytes.splice_append_zeros (header name data.length) data (n - 512)
    rw [Bytes.splice_append pre _ post data _ (by simp [headerSize, header_length]; omega),
      ← written, header_length, headerSize]
  have rest : n - 512 - data.length =
      entryLength data.length - (512 + data.length) + (n - entryLength data.length) := by
    omega
  have parts : Bytes.zeros (n - 512 - data.length) =
      padding data.length ++ Bytes.zeros (n - entryLength data.length) := by
    rw [padding, headerSize, Bytes.zeros_append, rest]
  have fits : ¬ (pre ++ Bytes.zeros n ++ post).length < pre.length + entryLength data.length := by
    simp only [List.length_append, Bytes.length_zeros]
    omega
  unfold writeEntry
  rw [if_neg (by omega), if_neg fits, blank, ← header]
  dsimp only
  rw [stamped, filled, parts]
  simp only [record, List.append_assoc]

/-! ## Archives -/

theorem records_cons (e : Entry) (rest : List Entry) :
    records (e :: rest) = record e ++ records rest := rfl

/-- Over zeros a list of entries becomes its records, and zeros after them. -/
theorem writeAll_zeros (entries : List Entry) (pre post : Bytes) (n : Nat)
    (hn : ∀ e ∈ entries, e.name.length < nameField)
    (hd : ∀ e ∈ entries, e.data.length + 1023 < UInt64.size) (room : (records entries).length ≤ n) :
    writeAll entries (pre ++ Bytes.zeros n ++ post) pre.length =
      (pre ++ records entries ++ Bytes.zeros (n - (records entries).length) ++ post,
        .ok (pre.length + (records entries).length)) := by
  induction entries generalizing pre n with
  | nil => simp [writeAll, records]
  | cons e rest ih =>
    have length := length_record (hn e List.mem_cons_self) (hd e List.mem_cons_self)
    rw [records_cons, List.length_append] at room
    have first := writeEntry_zeros pre post n (hn e List.mem_cons_self) (hd e List.mem_cons_self)
      (by omega)
    have others := ih (pre ++ record e) (n - (record e).length)
      (fun e he => hn e (List.mem_cons_of_mem _ he)) (fun e he => hd e (List.mem_cons_of_mem _ he))
      (by omega)
    rw [List.length_append] at others
    unfold writeAll
    rw [first]
    dsimp only
    rw [← length, others, records_cons, List.length_append]
    simp only [List.append_assoc, Nat.sub_add_eq, Nat.add_assoc]

end PocketKernel.Archive
