import Mathlib
import PocketKernel.Proofs.Memory.UserCopy

/-!
# User memory byte by byte

Copies go page by page, and a string is scanned with a copy for each of its bytes. Here both are
said one address at a time. A walk is guided by the words in `walkWords`, so that a copy to a range
that has none of these among its places is guided by the tables as they were (`Fillable`). Main
statements: `readUser_of_backed`, `scanString_eq_terminated` and `copied_of_writeUser`.
-/
namespace PocketKernel

/-- A word is loaded from its bytes. -/
theorem Ram.loadWord_congr {r r' : Ram} {addr : UInt32} (base : r'.base = r.base)
    (limit : r'.limit = r.limit)
    (same : r.holds addr 4 = true →
      ∀ a, addr.toNat ≤ a → a < addr.toNat + 4 → r'.byteAt a = r.byteAt a) :
    r'.loadWord addr = r.loadWord addr := by
  have holds : r'.holds addr 4 = r.holds addr 4 := by simp only [Ram.holds, base, limit]
  by_cases there : r.holds addr 4 = true
  · rw [loadWord_of_holds (holds.trans there), loadWord_of_holds there, wordAt_congr (same there)]
  · simp [loadWord, load, holds, there]

namespace Memory
open Paging
variable {m m' m₁ : Memory} {root va pa : UInt32} {n : Nat} {a : Nat}

/-! ## Bytes -/

/-- The walk for an address reads words that exist, and the place to which it leads exists. -/
def Backed (m : Memory) (root va : UInt32) : Prop :=
  ∃ found, m.translate root va = .ok found ∧ ∀ pa ∈ found, m.ram.Has pa.toNat 1

def Mapped (m : Memory) (root va : UInt32) : Prop := ∃ pa, m.translate root va = .ok (some pa)

def byte? (m : Memory) (root va : UInt32) : Option UInt8 :=
  match m.translate root va with
  | .ok (some pa) => some (m.ram.byteAt pa.toNat)
  | _ => none

theorem byte?_of_translate (found : m.translate root va = .ok (some pa)) :
    m.byte? root va = some (m.ram.byteAt pa.toNat) := by
  rw [byte?, found]

theorem mapped_iff : m.Mapped root va ↔ (m.byte? root va).isSome = true := by
  unfold Mapped byte?
  split
  next pa found => simp [found]
  next other =>
    refine ⟨?_, nofun⟩
    rintro ⟨pa, found⟩
    exact absurd found (other pa)

theorem mapped_in_page (found : m.translate root va = .ok (some pa)) {j : Nat}
    (hj : j < pageRest va) : m.Mapped root (va + UInt32.ofNat j) := by
  obtain ⟨pa', place, -⟩ := translate_in_page found hj
  exact ⟨pa', place⟩

instance : Decidable (m.Mapped root va) := decidable_of_iff' _ mapped_iff

/-- All is there for one who goes from `va` on for at most `n` addresses, as long as they pass. -/
def BackedWhile (m : Memory) (root va : UInt32) (n : Nat) (passes : UInt32 → Prop) : Prop :=
  ∀ i < n, (∀ j < i, passes (va + UInt32.ofNat j)) → m.Backed root (va + UInt32.ofNat i)

section
variable {passes : UInt32 → Prop}

theorem BackedWhile.first (h : BackedWhile m root va n passes) (pos : 0 < n) :
    m.Backed root va := by
  simpa using h 0 pos nofun

theorem BackedWhile.front (h : BackedWhile m root va n passes) {k : Nat} (le : k ≤ n) :
    BackedWhile m root va k passes :=
  fun i hi => h i (hi.trans_le le)

theorem BackedWhile.rest (h : BackedWhile m root va n passes) {k : Nat}
    (passed : ∀ j < k, passes (va + UInt32.ofNat j)) :
    BackedWhile m root (va + UInt32.ofNat k) (n - k) passes := by
  intro i hi before
  simp only [add_ofNat_add] at before ⊢
  refine h (k + i) (by omega) fun j hj => ?_
  by_cases early : j < k
  · exact passed j early
  · have later := before (j - k) (by omega)
    rwa [show k + (j - k) = j by omega] at later

end

/-- The places of a range in one page exist together. -/
theorem BackedWhile.has (h : BackedWhile m root va n (m.Mapped root)) (pos : 0 < n)
    (found : m.translate root va = .ok (some pa)) (inPage : n ≤ pageRest va) :
    m.ram.Has pa.toNat n := by
  have mapped : ∀ j < n - 1, m.Mapped root (va + UInt32.ofNat j) :=
    fun j hj => mapped_in_page found (by omega)
  obtain ⟨first, walk, low⟩ := h.first pos
  cases walk.symm.trans found
  obtain ⟨last, walk, high⟩ := h (n - 1) (by omega) mapped
  refine has_in_page found pos inPage (low pa rfl).1 fun pa' place => ?_
  cases walk.symm.trans place
  exact (high pa' rfl).2

/-- The part of `n` addresses from `va` on that comes before the first one that is not mapped. -/
structure Front (m : Memory) (root va : UInt32) (n stop : Nat) : Prop where
  le : stop ≤ n
  mapped : ∀ i < stop, m.Mapped root (va + UInt32.ofNat i)
  ends : stop < n → ¬ m.Mapped root (va + UInt32.ofNat stop)

theorem Front.zero (ends : 0 < n → ¬ m.Mapped root va) : Front m root va n 0 :=
  ⟨n.zero_le, fun i hi => absurd hi i.not_lt_zero, by simpa using ends⟩

/-- Addresses that are mapped before a range. -/
theorem Front.append {va' : UInt32} {k stop : Nat} (front : Front m₁ root va' n stop)
    (mapped : ∀ i < k, m.Mapped root (va + UInt32.ofNat i))
    (same : ∀ i < n, m₁.translate root (va' + UInt32.ofNat i) =
      m.translate root (va + UInt32.ofNat (k + i))) :
    Front m root va (k + n) (k + stop) := by
  have le := front.le
  refine ⟨by omega, fun i hi => ?_, fun short there => ?_⟩
  · by_cases early : i < k
    · exact mapped i early
    obtain ⟨pa, place⟩ := front.mapped (i - k) (by omega)
    rw [same _ (by omega), show k + (i - k) = i by omega] at place
    exact ⟨pa, place⟩
  · obtain ⟨pa, place⟩ := there
    exact front.ends (by omega) ⟨pa, (same stop (by omega)).trans place⟩

/-! ## Copies from user memory -/

def BytesAt (m : Memory) (root va : UInt32) (data : Bytes) : Prop :=
  ∀ (i : Nat) (h : i < data.length), m.byte? root (va + UInt32.ofNat i) = some data[i]

theorem BytesAt.nil (m : Memory) (root va : UInt32) : m.BytesAt root va [] :=
  fun i hi => absurd hi i.not_lt_zero

/-- Data in one page stand at one place. -/
theorem BytesAt.of_translate (found : m.translate root va = .ok (some pa))
    (inPage : n ≤ pageRest va) : m.BytesAt root va (m.ram.bytes pa.toNat n) := by
  intro i hi
  obtain ⟨pa', place, address⟩ := translate_in_page found (j := i) (by
    rw [Ram.length_bytes] at hi
    omega)
  rw [byte?_of_translate place, Ram.getElem_bytes, address]

theorem BytesAt.append {xs ys : Bytes} (first : m.BytesAt root va xs)
    (second : m.BytesAt root (va + UInt32.ofNat xs.length) ys) : m.BytesAt root va (xs ++ ys) := by
  intro i hi
  by_cases early : i < xs.length
  · rw [List.getElem_append_left early]
    exact first i early
  · rw [List.length_append] at hi
    have later := second (i - xs.length) (by omega)
    rw [add_ofNat_add, show xs.length + (i - xs.length) = i by omega] at later
    rw [later, List.getElem_append_right (by omega)]

theorem flatten_userPieces (va : UInt32) (data : Bytes) :
    ((userPieces va data).map (·.2)).flatten = data := by
  fun_induction userPieces va data with
  | case1 va => rfl
  | case2 va data _ ih => rw [List.map_cons, List.flatten_cons, ih, List.take_append_drop]

/-- A copy from a range brings its bytes up to the first address that is not mapped, and tells
whether there is one. The buffer keeps its own bytes from there on. -/
theorem readUser_of_backed {buffer : Bytes}
    (backed : BackedWhile m root va buffer.length (m.Mapped root)) :
    ∃ data, Front m root va buffer.length data.length ∧ m.BytesAt root va data ∧
      m.readUser root va buffer =
        .ok (decide (data.length = buffer.length), data ++ buffer.drop data.length) := by
  unfold readUser
  fun_induction userPieces va buffer with
  | case1 va => exact ⟨[], .zero fun pos => absurd pos (lt_irrefl 0), .nil m root va, rfl⟩
  | case2 va buffer nonempty ih =>
    have length : 0 < buffer.length := List.length_pos_iff.2 nonempty
    have positive := pageRest_pos va
    obtain ⟨found, walk, -⟩ := backed.first length
    rw [readPieces, walk]
    cases found with
    | none =>
      have unmapped : ¬ m.Mapped root va := by simp [Mapped, walk]
      refine ⟨[], .zero fun _ => unmapped, .nil m root va, ?_⟩
      have kept := flatten_userPieces va buffer
      rw [userPieces, if_neg nonempty, List.map_cons, List.flatten_cons] at kept
      rw [decide_eq_false (by rw [List.length_nil]; omega)]
      exact congrArg (fun data => Except.ok (false, data)) kept
    | some pa =>
      have piece : (buffer.take (pageRest va)).length = min (pageRest va) buffer.length :=
        List.length_take
      have rest : (buffer.drop (pageRest va)).length = buffer.length - pageRest va :=
        List.length_drop
      have room := (backed.front (show (buffer.take (pageRest va)).length ≤ buffer.length by
        omega)).has (by omega) walk (by omega)
      have loaded := Ram.load_of_holds (Ram.holds_iff.2 room)
      obtain ⟨data, front, bytes, read⟩ := ih <| by
        rw [rest]
        exact backed.rest fun j hj => mapped_in_page walk hj
      generalize first : m.ram.bytes pa.toNat (buffer.take (pageRest va)).length = got at loaded
      have size : got.length = min (pageRest va) buffer.length := by
        rw [← first, Ram.length_bytes, piece]
      have le := front.le
      -- something is left only if the piece reached the end of the page
      have full (left : 0 < (buffer.drop (pageRest va)).length) : got.length = pageRest va := by
        omega
      refine ⟨got ++ data, ?_, ?_, ?_⟩
      · have parts : got.length + (buffer.drop (pageRest va)).length = buffer.length := by omega
        rw [List.length_append, ← parts]
        refine front.append (fun i hi => mapped_in_page walk (by omega)) fun i hi => ?_
        rw [add_ofNat_add, full (by omega)]
      · refine (first ▸ BytesAt.of_translate walk (by omega)).append fun i hi => ?_
        rw [full (by omega)]
        exact bytes i hi
      · change (m.load pa _ >>= fun got => m.readPieces root _ >>= fun _ => _) = _
        have reached : data.length = (buffer.drop (pageRest va)).length ↔
            (got ++ data).length = buffer.length := by
          rw [List.length_append]
          omega
        have kept : got ++ (data ++ (buffer.drop (pageRest va)).drop data.length) =
            got ++ data ++ buffer.drop (got ++ data).length := by
          rw [List.append_assoc, List.drop_drop, List.length_append]
          by_cases left : 0 < (buffer.drop (pageRest va)).length
          · rw [full left]
          · rw [List.drop_of_length_le (by omega), List.drop_of_length_le (by omega)]
        rw [read]
        change (m.ram.load pa _ >>= fun got => _) = _
        rw [loaded, ← decide_eq_decide.2 reached, ← kept]
        rfl

/-- A range is read as the bytes behind its addresses. -/
theorem readUser_of_places {buffer data : Bytes} (size : data.length = buffer.length)
    (places : ∀ (i : Nat) (h : i < data.length),
      ∃ pa, m.translate root (va + UInt32.ofNat i) = .ok (some pa) ∧ m.ram.Has pa.toNat 1 ∧
        m.ram.byteAt pa.toNat = data[i]) :
    m.readUser root va buffer = .ok (true, data) := by
  have backed : BackedWhile m root va buffer.length (m.Mapped root) := by
    intro i hi _
    obtain ⟨pa, place, inside, -⟩ := places i (size ▸ hi)
    refine ⟨some pa, place, ?_⟩
    rintro _ ⟨⟩
    exact inside
  obtain ⟨got, front, bytes, read⟩ := readUser_of_backed backed
  have full : got.length = buffer.length := by
    refine front.le.antisymm (Nat.not_lt.1 fun short => ?_)
    obtain ⟨pa, place, -⟩ := places got.length (size ▸ short)
    exact front.ends short ⟨pa, place⟩
  have same : got = data := by
    refine List.ext_getElem (full.trans size.symm) fun i hi hi' => ?_
    obtain ⟨pa, place, -, byte⟩ := places i hi'
    have there := bytes i hi
    rw [byte?_of_translate place, byte] at there
    exact (Option.some.inj there).symm
  rw [read, decide_eq_true full, full, List.drop_length, List.append_nil, same]

/-- One byte is read, or its address is not mapped. -/
theorem readUser_byte (backed : m.Backed root va) :
    m.readUser root va [0] =
      .ok ((m.byte? root va).elim (false, [0]) fun b => (true, [b])) := by
  have alone : BackedWhile m root va [(0 : UInt8)].length (m.Mapped root) := by
    intro i hi _
    obtain rfl : i = 0 := Nat.lt_one_iff.1 hi
    simpa using backed
  obtain ⟨data, front, bytes, read⟩ := readUser_of_backed alone
  have le := front.le
  rw [read]
  match data with
  | [] =>
    have unmapped : ¬ m.Mapped root va := by simpa using front.ends Nat.one_pos
    rw [mapped_iff, Bool.not_eq_true, Option.isSome_eq_false_iff, Option.isNone_iff_eq_none]
      at unmapped
    rw [unmapped]
    rfl
  | [b] =>
    have here := bytes 0 Nat.one_pos
    rw [show va + UInt32.ofNat 0 = va from UInt32.add_zero va] at here
    rw [here]
    rfl
  | _ :: _ :: _ =>
    simp at le

/-! ## Strings -/

def TextAt (m : Memory) (root va : UInt32) : Prop := ∃ b ≠ 0, m.byte? root va = some b

def StringAt (m : Memory) (root : UInt32) : (va : UInt32) → (text : Bytes) → Prop
  | va, [] => m.byte? root va = some 0
  | va, b :: rest => m.byte? root va = some b ∧ b ≠ 0 ∧ m.StringAt root (va + 1) rest

theorem scanString_succ (backed : m.Backed root va) (room : Nat) :
    m.scanString root va (room + 1) =
      match m.byte? root va with
      | none => .ok ([], .unmapped)
      | some b =>
        if b = 0 then .ok ([], .terminated)
        else (m.scanString root (va + 1) room).map fun (text, stop) => (b :: text, stop) := by
  rw [scanString, readUser_byte backed]
  cases m.byte? root va with
  | none => rfl
  | some b =>
    by_cases zero : b = 0
    · subst zero
      rfl
    · simp only [Option.elim, bind, Except.bind, Bool.not_true, List.headD_cons, beq_iff_eq, zero,
        if_false]
      cases m.scanString root (va + 1) room <;> rfl

/-- A scan goes on behind a byte of the text. -/
theorem BackedWhile.next {room : Nat} (backed : BackedWhile m root va (room + 1) (m.TextAt root))
    (here : m.TextAt root va) : BackedWhile m root (va + 1) room (m.TextAt root) := by
  refine backed.rest (k := 1) fun j hj => ?_
  obtain rfl : j = 0 := by omega
  simpa using here

/-- A scan does not fault when all is there on its way. -/
theorem exists_scanString {room : Nat} (backed : BackedWhile m root va room (m.TextAt root)) :
    ∃ answer, m.scanString root va room = .ok answer := by
  induction room generalizing va with
  | zero => exact ⟨_, rfl⟩
  | succ room ih =>
    rw [scanString_succ (backed.first room.succ_pos)]
    cases here : m.byte? root va with
    | none => exact ⟨_, rfl⟩
    | some b =>
      by_cases zero : b = 0
      · exact ⟨_, if_pos zero⟩
      obtain ⟨answer, rest⟩ := ih (backed.next ⟨b, zero, here⟩)
      dsimp only
      rw [if_neg zero, rest]
      exact ⟨_, rfl⟩

/-- A scan finds the string that is there, provided that it ends in the room for it. -/
theorem scanString_eq_terminated {room : Nat} (backed : BackedWhile m root va room (m.TextAt root))
    {text : Bytes} : m.scanString root va room = .ok (text, .terminated) ↔
      m.StringAt root va text ∧ text.length < room := by
  induction room generalizing va text with
  | zero => simp [scanString]
  | succ room ih =>
    rw [scanString_succ (backed.first room.succ_pos)]
    cases here : m.byte? root va with
    | none => cases text <;> simp [StringAt, here]
    | some b =>
      by_cases zero : b = 0
      · subst zero
        cases text with
        | nil => simp [StringAt, here]
        | cons c text => simp +contextual [StringAt, here, eq_comm]
      have rest (text : Bytes) : m.scanString root (va + 1) room = .ok (text, .terminated) ↔
          m.StringAt root (va + 1) text ∧ text.length < room := ih (backed.next ⟨b, zero, here⟩)
      dsimp only
      rw [if_neg zero]
      cases text with
      | nil =>
        rcases m.scanString root (va + 1) room with fault | ⟨text', stop⟩ <;>
          simp [Except.map, StringAt, here, zero]
      | cons c text =>
        have step : (m.scanString root (va + 1) room).map (fun (text, stop) => (b :: text, stop)) =
            .ok (c :: text, .terminated) ↔
              b = c ∧ m.scanString root (va + 1) room = .ok (text, .terminated) := by
          rcases m.scanString root (va + 1) room with fault | ⟨text', stop⟩ <;>
            simp [Except.map, and_assoc]
        rw [step, rest]
        simp only [StringAt, here, Option.some.injEq, List.length_cons]
        constructor
        · rintro ⟨rfl, there, short⟩
          exact ⟨⟨rfl, zero, there⟩, by omega⟩
        · rintro ⟨⟨rfl, -, there⟩, short⟩
          exact ⟨rfl, there, by omega⟩

/-! ## Copies to user memory -/

def walkWords (m : Memory) (root va : UInt32) : List UInt32 :=
  directorySlot root va ::
    match m.ram.loadWord (directorySlot root va) with
    | .ok entry =>
      if PageEntry.valid entry && !PageEntry.isLeaf entry then [leafSlot entry va] else []
    | .error _ => []

def WalkByte (m : Memory) (root va : UInt32) (a : Nat) : Prop :=
  ∃ slot ∈ m.walkWords root va, slot.toNat ≤ a ∧ a < slot.toNat + 4

/-- A walk that is spared by the changes finds what it found. -/
theorem walk_of_changesOnly {P : Nat → Prop} (changes : ChangesOnly P m m')
    (spared : ∀ a, P a → ¬ m.WalkByte root va a) :
    leaf? m' root va = leaf? m root va ∧ m'.walkWords root va = m.walkWords root va := by
  have word (slot : UInt32) (read : slot ∈ m.walkWords root va) :
      m'.ram.loadWord slot = m.ram.loadWord slot := by
    refine Ram.loadWord_congr changes.base changes.limit fun there a low high => ?_
    by_contra ne
    have inside := (Ram.holds_iff.1 there).2
    have small : a < UInt32.size := by
      have := m.ram.limit.toNat_lt
      rw [show UInt32.size = 4294967296 from rfl]
      omega
    exact spared a (changes.bytes a small ne) ⟨slot, read, low, high⟩
  have directory := word (directorySlot root va) (by simp [walkWords])
  refine ⟨?_, by rw [walkWords, walkWords, directory]⟩
  change (m'.ram.loadWord _ >>= _) = (m.ram.loadWord _ >>= _)
  rw [directory]
  rcases loaded : m.ram.loadWord (directorySlot root va) with fault | entry
  · rfl
  dsimp only [bind, Except.bind]
  by_cases link : (PageEntry.valid entry && !PageEntry.isLeaf entry) = true
  · have leaf := word (leafSlot entry va) (by simp [walkWords, loaded, link])
    change (if _ then m'.ram.loadWord _ >>= _ else _) = (if _ then m.ram.loadWord _ >>= _ else _)
    rw [if_pos link, if_pos link, leaf]
  · rw [if_neg link, if_neg link]

/-- Where `n` addresses from `va` on lead exists as far as they are mapped, and none of these places
guides the walks for the range. -/
structure Fillable (m : Memory) (root va : UInt32) (n : Nat) : Prop where
  backed : m.BackedWhile root va n (m.Mapped root)
  apart : ∀ a, RangeByte m root va n a → ∀ i < n, ¬ m.WalkByte root (va + UInt32.ofNat i) a

/-- The data stand where the addresses from `va` on lead, and nothing else has changed. A place to
which several of the addresses lead has the byte of the last of them. -/
structure Copied (m : Memory) (root va : UInt32) (data : Bytes) (m' : Memory) : Prop where
  changes : ChangesOnly (RangeByte m root va data.length) m m'
  bytes : ∀ (i : Nat) (h : i < data.length) (pa : UInt32),
    m.translate root (va + UInt32.ofNat i) = .ok (some pa) →
      (∀ j < data.length, i < j → m.translate root (va + UInt32.ofNat j) ≠ .ok (some pa)) →
        m'.ram.byteAt pa.toNat = data[i]

theorem Copied.nil (m : Memory) (root va : UInt32) : Copied m root va [] m :=
  ⟨.refl _ m, nofun⟩

/-- Data that stay in one page are stored at one place. -/
theorem Copied.of_store {data : Bytes} (found : m.translate root va = .ok (some pa))
    (inPage : data.length ≤ pageRest va) (room : m.ram.Has pa.toNat data.length) :
    ∃ m', store pa data m = .ok () m' ∧ Copied m root va data m' := by
  have stored : store pa data m = .ok () { m with ram := m.ram.write pa.toNat data } :=
    inRam_of_ok (Ram.store_of_holds (Ram.holds_iff.2 room))
  refine ⟨_, stored, ?_, fun i hi pa' place _ => ?_⟩
  · exact (ChangesOnly.of_store stored).mono fun a inside =>
      rangeByte_of_translate found inPage inside.1 inside.2
  · obtain ⟨pa'', there, address⟩ := translate_in_page found (j := i) (by omega)
    cases place.symm.trans there
    have := room.lt_size
    change (m.ram.write pa.toNat data).byteAt pa'.toNat = _
    rw [Ram.byteAt_write _ _ _ (by omega), if_pos (by omega), address, Nat.add_sub_cancel_left,
      List.getD_eq_getElem _ _ hi]

/-- A copy after a copy to the addresses before. -/
theorem Copied.append {va' : UInt32} {xs ys : Bytes} (first : Copied m root va xs m₁)
    (second : Copied m₁ root va' ys m') (same : ∀ i < ys.length,
      m₁.translate root (va' + UInt32.ofNat i) =
        m.translate root (va + UInt32.ofNat (xs.length + i))) :
    Copied m root va (xs ++ ys) m' := by
  have later {a : Nat} (inside : RangeByte m₁ root va' ys.length a) : ∃ i < ys.length, ∃ pa,
      m.translate root (va + UInt32.ofNat (xs.length + i)) = .ok (some pa) ∧ pa.toNat = a := by
    obtain ⟨i, hi, pa, place, address⟩ := inside
    exact ⟨i, hi, pa, (same i hi).symm.trans place, address⟩
  constructor
  · rw [List.length_append]
    refine (first.changes.mono fun a inside => inside.front (by omega)).trans ?_
    refine second.changes.mono fun a inside => ?_
    obtain ⟨i, hi, found⟩ := later inside
    exact ⟨xs.length + i, by omega, found⟩
  · intro i hi pa place last
    rw [List.length_append] at hi last
    by_cases early : i < xs.length
    · -- the second copy goes elsewhere, as the place has no later address
      rw [List.getElem_append_left early, ← first.bytes i early pa place fun j hj =>
        last j (by omega)]
      by_contra ne
      obtain ⟨j, hj, pa', place', address⟩ := later (second.changes.bytes _ pa.toNat_lt ne)
      rw [UInt32.toNat_inj] at address
      exact last (xs.length + j) (by omega) (by omega) (address ▸ place')
    · rw [List.getElem_append_right (by omega)]
      refine second.bytes (i - xs.length) (by omega) pa ?_ fun j hj lt => ?_
      · rw [same _ (by omega), show xs.length + (i - xs.length) = i by omega, place]
      · rw [same j hj]
        exact last _ (by omega) (by omega)

namespace Fillable

/-- Whatever is written to places of the range leaves its walks. -/
theorem walk_eq (h : Fillable m root va n) (changes : ChangesOnly (RangeByte m root va n) m m₁)
    {i : Nat} (hi : i < n) :
    m₁.translate root (va + UInt32.ofNat i) = m.translate root (va + UInt32.ofNat i) ∧
      m₁.walkWords root (va + UInt32.ofNat i) = m.walkWords root (va + UInt32.ofNat i) := by
  obtain ⟨leaf, words⟩ := walk_of_changesOnly changes fun a inside => h.apart a inside i hi
  refine ⟨?_, words⟩
  simp only [Memory.translate, Paging.translate, leaf]

/-- What is left to fill when the addresses before are filled. -/
theorem rest (h : Fillable m root va n) (changes : ChangesOnly (RangeByte m root va n) m m₁)
    {k : Nat} (mapped : ∀ j < k, m.Mapped root (va + UInt32.ofNat j)) :
    Fillable m₁ root (va + UInt32.ofNat k) (n - k) := by
  have walk {i : Nat} (hi : i < n - k) := h.walk_eq changes (show k + i < n by omega)
  constructor
  · intro i hi before
    obtain ⟨found, there, inside⟩ := h.backed.rest mapped i hi fun j hj => by
      obtain ⟨pa, place⟩ := before j hj
      rw [add_ofNat_add, (walk (hj.trans hi)).1] at place
      exact ⟨pa, add_ofNat_add va k j ▸ place⟩
    refine ⟨found, ?_, fun pa hpa => ?_⟩
    · rw [← there, add_ofNat_add, (walk hi).1]
    · rw [Ram.Has, changes.base, changes.limit]
      exact inside pa hpa
  · rintro a ⟨j, hj, pa, place, address⟩ i hi guided
    rw [add_ofNat_add, (walk hj).1] at place
    rw [WalkByte, add_ofNat_add, (walk hi).2] at guided
    exact h.apart a ⟨k + j, by omega, pa, place, address⟩ (k + i) (by omega) guided

end Fillable

/-- The first piece of a copy, after which the walks for the rest are those of the memory before. -/
theorem Fillable.store {data : Bytes} (h : Fillable m root va data.length) (nonempty : data ≠ [])
    (found : m.translate root va = .ok (some pa)) :
    ∃ m₁, Memory.store pa (data.take (pageRest va)) m = .ok () m₁ ∧
      Copied m root va (data.take (pageRest va)) m₁ ∧
      Fillable m₁ root (va + UInt32.ofNat (pageRest va)) (data.drop (pageRest va)).length ∧
      ∀ i < (data.drop (pageRest va)).length,
        m₁.translate root (va + UInt32.ofNat (pageRest va) + UInt32.ofNat i) =
          m.translate root (va + UInt32.ofNat ((data.take (pageRest va)).length + i)) := by
  have length : 0 < data.length := List.length_pos_iff.2 nonempty
  have positive := pageRest_pos va
  have piece : (data.take (pageRest va)).length = min (pageRest va) data.length := List.length_take
  have rest : (data.drop (pageRest va)).length = data.length - pageRest va := List.length_drop
  have backed := h.backed.front (show (data.take (pageRest va)).length ≤ data.length by omega)
  obtain ⟨m₁, stored, first⟩ :=
    Copied.of_store found (by omega) (backed.has (by omega) found (by omega))
  have changes : ChangesOnly (RangeByte m root va data.length) m m₁ :=
    first.changes.mono fun a inside => inside.front (by omega)
  refine ⟨m₁, stored, first, ?_, fun i hi => ?_⟩
  · rw [rest]
    exact h.rest changes fun j hj => mapped_in_page found hj
  · -- something is left, so the piece reached the end of the page
    rw [add_ofNat_add, (h.walk_eq changes (by omega)).1, piece, min_eq_left (by omega)]

/-- A copy to a range that can be filled fills it up to the first address that is not mapped, and
tells whether there is one. -/
theorem copied_of_writeUser {data : Bytes} (fillable : Fillable m root va data.length) :
    ∃ stop m', Front m root va data.length stop ∧
      writeUser root va data m = .ok (decide (stop = data.length)) m' ∧
        Copied m root va (data.take stop) m' := by
  unfold writeUser
  fun_induction userPieces va data generalizing m with
  | case1 va => exact ⟨0, m, .zero fun pos => absurd pos (lt_irrefl 0), rfl, .nil m root va⟩
  | case2 va data nonempty ih =>
    have length : 0 < data.length := List.length_pos_iff.2 nonempty
    obtain ⟨found, walk, -⟩ := fillable.backed.first length
    have asked : Action.ask (translate · root va) m = .ok found m := Action.ask_of_ok walk
    rw [writePieces, Action.bind_of_ok asked]
    cases found with
    | none =>
      have unmapped : ¬ m.Mapped root va := by simp [Mapped, walk]
      refine ⟨0, m, .zero fun _ => unmapped, ?_, .nil m root va⟩
      rw [decide_eq_false (by omega)]
      rfl
    | some pa =>
      obtain ⟨m₁, stored, first, fillable', same⟩ := fillable.store nonempty walk
      obtain ⟨stop, m', front, copied, second⟩ := ih fillable'
      have parts : (data.take (pageRest va)).length + (data.drop (pageRest va)).length =
          data.length := by
        rw [← List.length_append, List.take_append_drop]
      have mapped : ∀ i < (data.take (pageRest va)).length,
          m.Mapped root (va + UInt32.ofNat i) :=
        fun i hi => mapped_in_page walk (hi.trans_le (List.length_take_le _ _))
      have reached : stop = (data.drop (pageRest va)).length ↔
          (data.take (pageRest va)).length + stop = data.length := by omega
      refine ⟨(data.take (pageRest va)).length + stop, m', parts ▸ front.append mapped same, ?_, ?_⟩
      · change (Memory.store pa _ >>= fun _ => writePieces root _) m = _
        rw [Action.bind_of_ok stored, copied, decide_eq_decide.2 reached]
      · have cut : (data.take (pageRest va) ++ data.drop (pageRest va)).take
            ((data.take (pageRest va)).length + stop) =
              data.take (pageRest va) ++ (data.drop (pageRest va)).take stop :=
          List.take_length_add_append stop
        rw [List.take_append_drop] at cut
        rw [cut]
        exact first.append second fun i hi => same i (hi.trans_le (List.length_take_le' _ _))

end Memory

/-! ## Separate processes -/

namespace Paging.Isolated
open Memory TableView
variable {roots : Set UInt32} {m : Memory} {root va : UInt32} {n : Nat} {a : Nat}

/-- Walks are guided by tables. -/
theorem tableByte_of_walkByte (h : Isolated roots m) (hr : root ∈ roots)
    (guides : m.WalkByte root va a) : TableByte roots m a := by
  obtain ⟨slot, read, low, high⟩ := guides
  have entry : m.ram.loadWord (directorySlot root va) =
      .ok (word m root (Vaddr.directoryIndex va)) :=
    LawfulTableMemory.loadWord_ready h.forest.good (h.forest.root root hr)
      (Vaddr.directoryIndex_lt va)
  rw [walkWords, entry, List.mem_cons] at read
  dsimp only at read
  rcases read with rfl | read
  · have place : (directorySlot root va).toNat = _ :=
      toNat_wordAddr (h.forest.root root hr).aligned (Vaddr.directoryIndex_lt va)
    have index := Vaddr.directoryIndex_lt va
    exact ⟨root, .inl hr, by unfold InPage; omega⟩
  · split at read
    swap
    · cases read
    next link =>
    obtain rfl := List.mem_singleton.1 read
    rw [Bool.and_eq_true] at link
    have table : TablePage roots m (tableOf m root va) := .inr ⟨root, hr, va, link.1, rfl⟩
    have place : (leafSlot (word m root (Vaddr.directoryIndex va)) va).toNat = _ :=
      toNat_wordAddr (h.forest.ready_of_tablePage table).aligned (Vaddr.tableIndex_lt va)
    have index := Vaddr.tableIndex_lt va
    exact ⟨_, table, by unfold InPage tableOf; omega⟩

/-- Pages of user code exist. -/
theorem backed (h : Isolated roots m) (hr : root ∈ roots)
    (user : ∀ flags, m.leafFlags root va = .ok (some flags) → PageEntry.forUser flags = true) :
    m.Backed root va := by
  have walk := h.forest.leaf?_eq hr va
  refine ⟨(leafAt m root va).map fun leaf => PageEntry.frame leaf + Vaddr.offset va, ?_, ?_⟩
  · rw [Memory.translate, Paging.translate, walk]
    rfl
  · intro pa place
    obtain ⟨leaf, there, rfl⟩ := Option.map_eq_some_iff.1 place
    have flags := leafFlags_eq_some.2 ⟨leaf, walk.trans (congrArg _ there), rfl⟩
    have page : UserPage m root (PageEntry.frame leaf) :=
      ⟨va, leaf, there, PageEntry.forUser_flags leaf ▸ user _ flags, rfl⟩
    have ready : m.Taken (PageEntry.frame leaf) := h.ready root hr _ page
    have base := ready.base
    have limit := ready.limit
    have small : (Vaddr.offset va).toNat < 4096 := by simp only [Vaddr.toNat_offset]; omega
    rw [Ram.Has, PageEntry.toNat_frame_add small]
    omega

theorem backedWhile (h : Isolated roots m) (hr : root ∈ roots) (range : UserRange m root va n)
    (passes : UInt32 → Prop) : m.BackedWhile root va n passes :=
  fun i hi _ => h.backed hr (range i hi)

/-- A range of user code can be filled. -/
theorem fillable (h : Isolated roots m) (hr : root ∈ roots) (range : UserRange m root va n) :
    Fillable m root va n where
  backed := h.backedWhile hr range _
  apart _ inside _ _ guides :=
    h.not_tableByte hr (range.userByte inside) (h.tableByte_of_walkByte hr guides)

end Paging.Isolated

end PocketKernel
