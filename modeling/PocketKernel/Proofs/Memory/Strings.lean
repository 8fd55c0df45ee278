import Mathlib
import PocketKernel.Proofs.Memory.Bytewise

/-!
# Strings in user memory

A string is read into a buffer byte by byte. Its end, an address that is not mapped and the end of
the buffer each stop the reading, whichever comes first (`TextBefore`), and the buffer keeps its own
bytes from there on. The loop over the buffer is `readString`; it gives what `scanString` finds.
Main statement: `readString_eq_some_iff`.
-/
namespace PocketKernel.Memory
variable {m : Memory} {root va : UInt32} {room : Nat} {text : Bytes} {stop : StringEnd}

/-! ## The loop over a buffer -/

/-- Reads a string into the buffer from index `i` on: the text, when the string ends in the buffer,
and the buffer. -/
def readString (m : Memory) (root va : UInt32) (buffer : Bytes) (i : Nat) :
    Except Fault (Option Bytes × Bytes) :=
  if i < buffer.length then do
    let (mapped, byte) ← m.readUser root (va + UInt32.ofNat i) [0]
    if !mapped then
      pure (none, buffer)
    else if byte.headD 0 == 0 then
      pure (some (buffer.take i), buffer)
    else
      m.readString root va (buffer.set i (byte.headD 0)) (i + 1)
  else pure (none, buffer)
termination_by buffer.length - i
decreasing_by
  rw [List.length_set]
  omega

def fillWith (buffer : Bytes) (scan : Bytes × StringEnd) : Option Bytes × Bytes :=
  (if scan.2 = .terminated then some scan.1 else none, scan.1 ++ buffer.drop scan.1.length)

/-- A byte that is put behind the front of a buffer is part of the text. -/
theorem fillWith_set {buffer : Bytes} {i : Nat} (inside : i < buffer.length) (b : UInt8)
    (text : Bytes) (stop : StringEnd) :
    fillWith (buffer.set i b) ((buffer.set i b).take (i + 1) ++ text, stop) =
      fillWith buffer (buffer.take i ++ b :: text, stop) := by
  have front : (buffer.set i b).take (i + 1) = buffer.take i ++ [b] := by
    rw [List.take_add_one, List.getElem?_set_self inside, List.take_set_of_le le_rfl]
    rfl
  have size : (buffer.take i).length = i := List.length_take_of_le inside.le
  have kept : (buffer.set i b).drop (i + (text.length + 1)) =
      buffer.drop (i + (text.length + 1)) :=
    List.drop_set_of_lt (by omega)
  simp only [fillWith, front, List.append_assoc, List.singleton_append, List.length_append, size,
    List.length_cons, kept]

/-- The loop gives what the scan finds. -/
theorem readString_eq (m : Memory) (root va : UInt32) (buffer : Bytes) (i : Nat)
    (le : i ≤ buffer.length) : m.readString root va buffer i =
      (m.scanString root (va + UInt32.ofNat i) (buffer.length - i)).map fun (text, stop) =>
        fillWith buffer (buffer.take i ++ text, stop) := by
  fun_induction readString m root va buffer i with
  | case1 buffer i inside ih =>
    obtain ⟨room, left⟩ : ∃ room, buffer.length - i = room + 1 :=
      ⟨buffer.length - i - 1, by omega⟩
    have size : (buffer.take i).length = i := List.length_take_of_le le
    rw [left, scanString]
    rcases read : m.readUser root (va + UInt32.ofNat i) [0] with fault | ⟨mapped, byte⟩
    · rfl
    simp only [bind, Except.bind]
    split
    next => simp [pure, Except.pure, Except.map, fillWith, size]
    next =>
      split
      next => simp [pure, Except.pure, Except.map, fillWith, size]
      next =>
        have rest : (buffer.set i (byte.headD 0)).length - (i + 1) = room := by
          rw [List.length_set]
          omega
        rw [ih byte (by rw [List.length_set]; omega), rest, UInt32.ofNat_add, ← UInt32.add_assoc]
        simp only [fillWith_set inside]
        cases m.scanString root (va + UInt32.ofNat i + 1) room <;> rfl
  | case2 buffer i outside =>
    obtain rfl : i = buffer.length := by omega
    rw [Nat.sub_self, scanString]
    simp [Except.map, fillWith, pure, Except.pure]

/-! ## What a scan meets -/

/-- A byte is read exactly when the walk and the place are there. -/
theorem readUser_byte_eq_ok :
    (∃ answer, m.readUser root va [0] = .ok answer) ↔ m.Backed root va := by
  constructor
  · rintro ⟨answer, read⟩
    rw [readUser, userPieces, if_neg (List.cons_ne_nil 0 []), readPieces] at read
    rcases walk : m.translate root va with fault | _ | pa
    · rw [walk] at read
      cases read
    · refine ⟨none, walk, ?_⟩
      rintro _ ⟨⟩
    · refine ⟨some pa, walk, ?_⟩
      rintro _ ⟨⟩
      have one : ([0] : Bytes).take (pageRest va) = [0] :=
        List.take_of_length_le (pageRest_pos va)
      have holds : m.ram.holds pa 1 = true := by
        by_contra outside
        rw [walk, one] at read
        change (m.ram.load pa 1 >>= fun got => _) = _ at read
        rw [Ram.load, if_neg outside] at read
        cases read
      exact Ram.holds_iff.1 holds
  · intro backed
    exact ⟨_, readUser_byte backed⟩

theorem backed_of_scanString {answer : Bytes × StringEnd}
    (scan : m.scanString root va (room + 1) = .ok answer) : m.Backed root va := by
  rw [← readUser_byte_eq_ok]
  rw [scanString] at scan
  cases read : m.readUser root va [0] with
  | error fault =>
    rw [read] at scan
    cases scan
  | ok got => exact ⟨got, rfl⟩

/-- The bytes from `va` on up to the first one that is zero or not mapped, but no more than there is
room for. -/
structure TextBefore (m : Memory) (root va : UInt32) (room : Nat) (text : Bytes) : Prop where
  le : text.length ≤ room
  bytes : m.BytesAt root va text
  nonzero : 0 ∉ text
  ends : text.length < room → ¬ m.TextAt root (va + UInt32.ofNat text.length)

theorem add_one_add_ofNat (va : UInt32) (i : Nat) :
    va + 1 + UInt32.ofNat i = va + UInt32.ofNat (i + 1) := by
  rw [Nat.add_comm]
  exact add_ofNat_add va 1 i

theorem bytesAt_cons {b : UInt8} :
    m.BytesAt root va (b :: text) ↔ m.byte? root va = some b ∧ m.BytesAt root (va + 1) text := by
  constructor
  · intro bytes
    refine ⟨by simpa using bytes 0 (Nat.succ_pos _), fun i hi => ?_⟩
    rw [add_one_add_ofNat]
    exact bytes (i + 1) (Nat.succ_lt_succ hi)
  · rintro ⟨here, rest⟩ i hi
    cases i with
    | zero => simpa using here
    | succ i =>
      rw [← add_one_add_ofNat]
      exact rest i (Nat.lt_of_succ_lt_succ hi)

theorem BackedWhile.cons (first : m.Backed root va)
    (rest : m.TextAt root va → BackedWhile m root (va + 1) room (m.TextAt root)) :
    BackedWhile m root va (room + 1) (m.TextAt root) := by
  intro i hi before
  cases i with
  | zero => simpa using first
  | succ i =>
    have here : m.TextAt root va := by simpa using before 0 i.succ_pos
    rw [← add_one_add_ofNat]
    refine rest here i (by omega) fun j hj => ?_
    rw [add_one_add_ofNat]
    exact before (j + 1) (by omega)

/-- A scan that ends brings the text, and all was there on its way. -/
theorem textBefore_of_scanString (scan : m.scanString root va room = .ok (text, stop)) :
    BackedWhile m root va room (m.TextAt root) ∧ TextBefore m root va room text := by
  induction room generalizing va text with
  | zero =>
    cases scan
    refine ⟨fun i hi => absurd hi i.not_lt_zero, le_rfl, .nil m root va, List.not_mem_nil, ?_⟩
    exact fun pos => absurd pos (lt_irrefl 0)
  | succ room ih =>
    have backed := backed_of_scanString scan
    rw [scanString_succ backed] at scan
    -- no text stands at an address where the scan ends
    have done (unread : ¬ m.TextAt root va) :
        BackedWhile m root va (room + 1) (m.TextAt root) ∧
          TextBefore m root va (room + 1) [] := by
      refine ⟨.cons backed fun here => absurd here unread, Nat.zero_le _, .nil m root va,
        List.not_mem_nil, fun _ => ?_⟩
      simpa using unread
    cases here : m.byte? root va with
    | none =>
      rw [here] at scan
      cases scan
      exact done fun ⟨_, _, there⟩ => by simp [here] at there
    | some b =>
      rw [here] at scan
      dsimp only at scan
      split at scan
      next zero =>
        cases scan
        refine done fun ⟨c, nonzero, there⟩ => nonzero ?_
        rw [here] at there
        exact (Option.some.inj there).symm.trans zero
      next nonzero =>
        rcases rest : m.scanString root (va + 1) room with fault | ⟨text', stop'⟩
        · rw [rest] at scan
          cases scan
        rw [rest] at scan
        cases scan
        obtain ⟨backed', before⟩ := ih rest
        refine ⟨.cons backed fun _ => backed', Nat.succ_le_succ before.le,
          bytesAt_cons.2 ⟨here, before.bytes⟩, ?_, fun short => ?_⟩
        · rw [List.mem_cons, not_or]
          exact ⟨Ne.symm nonzero, before.nonzero⟩
        · have stops := before.ends (by simpa using short)
          rwa [add_one_add_ofNat] at stops

theorem stringAt_iff : m.StringAt root va text ↔
    m.BytesAt root va text ∧ 0 ∉ text ∧
      m.byte? root (va + UInt32.ofNat text.length) = some 0 := by
  induction text generalizing va with
  | nil => simp [StringAt, BytesAt.nil]
  | cons b text ih =>
    rw [StringAt, ih, bytesAt_cons, add_one_add_ofNat, List.mem_cons, not_or, List.length_cons,
      ne_comm (a := b)]
    tauto

/-- The text before the first zero byte, said by its length. -/
theorem stringAt_iff_exists {room : Nat} : m.StringAt root va text ∧ text.length < room ↔
    ∃ i < room, (∀ j ≤ i, m.Mapped root (va + UInt32.ofNat j)) ∧
      m.byte? root (va + UInt32.ofNat i) = some 0 ∧
      (∀ j < i, m.byte? root (va + UInt32.ofNat j) ≠ some 0) ∧
      text.length = i ∧ m.BytesAt root va text := by
  rw [stringAt_iff]
  constructor
  · rintro ⟨⟨bytes, nonzero, zero⟩, short⟩
    refine ⟨text.length, short, fun j hj => ?_, zero, fun j hj => ?_, rfl, bytes⟩
    · rw [mapped_iff]
      rcases hj.lt_or_eq with inside | rfl
      · rw [bytes j inside]
        rfl
      · rw [zero]
        rfl
    · rw [bytes j hj, ne_eq, Option.some.injEq]
      intro same
      exact nonzero (same ▸ List.getElem_mem hj)
  · rintro ⟨i, short, -, zero, nonzero, rfl, bytes⟩
    refine ⟨⟨bytes, fun member => ?_, zero⟩, short⟩
    obtain ⟨j, hj, same⟩ := List.getElem_of_mem member
    exact nonzero j hj (same ▸ bytes j hj)

/-- Reading a string into a buffer answers exactly when all is there that it meets. It returns the
bytes before the first zero byte, provided that this byte comes within the length of the buffer and
that no address before it or at it is not mapped; what lies behind does not matter. In every case it
has put the text that it met at the front of the buffer, which keeps its own bytes behind. -/
theorem readString_eq_some_iff (m : Memory) (root va : UInt32) (buffer : Bytes) :
    ((∃ answer, m.readString root va buffer 0 = .ok answer) ↔
      BackedWhile m root va buffer.length (m.TextAt root)) ∧
    ∀ (answer : Option Bytes) (after : Bytes),
      m.readString root va buffer 0 = .ok (answer, after) →
      (∀ s, answer = some s ↔ ∃ i < buffer.length,
        (∀ j ≤ i, m.Mapped root (va + UInt32.ofNat j)) ∧
          m.byte? root (va + UInt32.ofNat i) = some 0 ∧
          (∀ j < i, m.byte? root (va + UInt32.ofNat j) ≠ some 0) ∧
          s.length = i ∧ m.BytesAt root va s) ∧
      ∃ text, TextBefore m root va buffer.length text ∧
        after = text ++ buffer.drop text.length := by
  have loop : m.readString root va buffer 0 =
      (m.scanString root va buffer.length).map (fillWith buffer) := by
    have start := m.readString_eq root va buffer 0 (Nat.zero_le _)
    rwa [show va + UInt32.ofNat 0 = va from UInt32.add_zero va, Nat.sub_zero] at start
  rw [loop]
  rcases scan : m.scanString root va buffer.length with fault | ⟨text, stop⟩
  · refine ⟨⟨nofun, fun backed => ?_⟩, nofun⟩
    obtain ⟨answer, scan'⟩ := exists_scanString backed
    rw [scan] at scan'
    cases scan'
  obtain ⟨backed, before⟩ := textBefore_of_scanString scan
  refine ⟨⟨fun _ => backed, fun _ => ⟨_, rfl⟩⟩, ?_⟩
  rintro _ _ ⟨⟩
  refine ⟨fun s => ?_, text, before, rfl⟩
  rw [← stringAt_iff_exists, ← scanString_eq_terminated backed, scan]
  cases stop <;> simp

instance : Decidable (m.TextAt root va) :=
  decidable_of_iff ((m.byte? root va).any (· ≠ 0) = true) <| by
    unfold TextAt
    cases m.byte? root va <;> simp

def lastBytes : Memory := { twoPages with ram := twoPages.ram.write 0x80202FFD [0x61, 0x62] }

/-- The string is read, and a buffer of its length has no room for its end. -/
theorem readString_eq_some_iff_lastBytes :
    ¬ lastBytes.Mapped 0x80200000 0x1000 ∧
      (∃ after, lastBytes.readString 0x80200000 0xFFD [7, 7, 7, 7] 0 =
        .ok (some [0x61, 0x62], after)) ∧
      ∃ after, lastBytes.readString 0x80200000 0xFFD [7, 7] 0 = .ok (none, after) := by
  have backed (buffer : Bytes) (h : buffer.length ∈ [4, 2]) :
      BackedWhile lastBytes 0x80200000 0xFFD buffer.length (lastBytes.TextAt 0x80200000) := by
    revert h
    generalize buffer.length = n
    unfold BackedWhile
    revert n
    decide +kernel
  refine ⟨by decide +kernel, ?_, ?_⟩
  · obtain ⟨answers, found⟩ := readString_eq_some_iff lastBytes 0x80200000 0xFFD [7, 7, 7, 7]
    obtain ⟨⟨answer, after⟩, read⟩ := answers.2 (backed _ (by decide))
    refine ⟨after, ?_⟩
    rw [read, ((found answer after read).1 [0x61, 0x62]).2 ?_]
    refine ⟨2, by decide, by decide +kernel, by decide +kernel, by decide +kernel, rfl, ?_⟩
    unfold BytesAt
    decide +kernel
  · obtain ⟨answers, found⟩ := readString_eq_some_iff lastBytes 0x80200000 0xFFD [7, 7]
    obtain ⟨⟨answer, after⟩, read⟩ := answers.2 (backed _ (by decide))
    refine ⟨after, ?_⟩
    cases answer with
    | none => exact read
    | some s =>
      obtain ⟨i, short, -, zero, -⟩ := ((found _ after read).1 s).1 rfl
      have text : ∀ i < 2, lastBytes.byte? 0x80200000 (0xFFD + UInt32.ofNat i) ≠ some 0 := by
        decide +kernel
      exact absurd zero (text i short)

end PocketKernel.Memory
