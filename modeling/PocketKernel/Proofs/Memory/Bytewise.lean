import Mathlib
import PocketKernel.Proofs.Memory.UserBytes

/-!
# Copies one byte at a time

A copy moves the part of a range that lies in one page at once. Here it is compared with a copy that
looks up each address and moves one byte. `Leads` names the places to which the addresses of a range
lead, up to the first that is not mapped. Main statement: copies from user memory bring the bytes of
these places, and copies to it write the bytes to these places in order (`copies_bytewise`).
-/
namespace PocketKernel

namespace ByteTree

@[simp] theorem write_nil (height size start : Nat) (t : ByteTree) :
    write height size start [] t = t := by
  cases height <;> rfl

/-- What is written to a range is written to its halves, as much of it as lies in each. -/
theorem write_node (height size start : Nat) {data : Bytes} (nonempty : data ≠ []) (t : ByteTree) :
    write (height + 1) size start data t =
      node (write height (size / 2) start (data.take (size / 2 - start)) t.low)
        (write height (size / 2) (start - size / 2) (data.drop (size / 2 - start)) t.high) := by
  obtain ⟨b, rest, rfl⟩ := List.exists_cons_of_ne_nil nonempty
  rw [write]
  split_ifs with none whole
  · rw [none, List.take_zero, List.drop_zero, write_nil]
  · rw [List.take_of_length_le (by rw [List.length_cons]; omega),
      List.drop_of_length_le (by rw [List.length_cons]; omega), write_nil]
  · rw [show start - size / 2 = 0 by omega]

/-- A write is one of its front and then one of its rest. -/
theorem write_append (height size start : Nat) (xs ys : Bytes) (t : ByteTree) :
    write height size start (xs ++ ys) t =
      write height size (start + xs.length) ys (write height size start xs t) := by
  induction height generalizing size start xs ys t with
  | zero =>
    cases xs with
    | nil => simp
    | cons x xs => cases ys <;> simp [write]
  | succ height ih =>
    rcases eq_or_ne xs [] with rfl | some_xs
    · simp
    rcases eq_or_ne ys [] with rfl | some_ys
    · simp
    have room : size / 2 - (start + xs.length) = size / 2 - start - xs.length := by omega
    rw [write_node _ _ _ (List.append_ne_nil_of_left_ne_nil some_xs ys), write_node _ _ _ some_xs,
      write_node _ _ _ some_ys, List.take_append, List.drop_append, ih, ih, room]
    simp only [low, high, List.length_take, List.length_drop]
    -- the rest begins in the first half, or behind a front that reaches the second one
    rcases Nat.le_total xs.length (size / 2 - start) with inside | beyond
    · have some_room := List.length_pos_iff.2 some_xs
      rw [Nat.min_eq_right inside, Nat.sub_eq_zero_of_le inside, Nat.add_zero,
        show start + xs.length - size / 2 = start - size / 2 by omega]
    · rw [Nat.sub_eq_zero_of_le beyond, List.take_zero, write_nil, write_nil,
        show start - size / 2 + (xs.length - (size / 2 - start)) =
          start + xs.length - size / 2 by omega]

end ByteTree

namespace Ram

theorem write_append (r : Ram) (addr : Nat) (xs ys : Bytes) :
    r.write addr (xs ++ ys) = (r.write addr xs).write (addr + xs.length) ys := by
  simp only [write, ByteTree.write_append]

/-- The bytes written one at a time in order, each at a place of its own. -/
def writeEach (r : Ram) (cells : List (UInt32 × UInt8)) : Ram :=
  cells.foldl (fun r cell => r.write cell.1.toNat [cell.2]) r

theorem writeEach_append (r : Ram) (cells others : List (UInt32 × UInt8)) :
    r.writeEach (cells ++ others) = (r.writeEach cells).writeEach others :=
  List.foldl_append

def run (pa : UInt32) (n : Nat) : List UInt32 := (List.range n).map fun i => pa + UInt32.ofNat i

@[simp] theorem length_run (pa : UInt32) (n : Nat) : (run pa n).length = n := by simp [run]

theorem run_succ (pa : UInt32) (n : Nat) : run pa (n + 1) = pa :: run (pa + 1) n := by
  simp only [run, List.range_succ_eq_map, List.map_cons, List.map_map]
  congr 1
  · exact UInt32.add_zero pa
  · refine List.map_congr_left fun i _ => ?_
    rw [Function.comp_apply, Nat.succ_eq_one_add, UInt32.ofNat_add, ← UInt32.add_assoc]
    rfl

/-- Bytes that follow each other are written at once. -/
theorem writeEach_run (r : Ram) {pa : UInt32} {data : Bytes}
    (room : pa.toNat + data.length ≤ UInt32.size) :
    r.writeEach ((run pa data.length).zip data) = r.write pa.toNat data := by
  induction data generalizing r pa with
  | nil => simp [writeEach, write, run]
  | cons b rest ih =>
    rw [List.length_cons] at room
    rw [List.length_cons, run_succ, List.zip_cons_cons, ← List.singleton_append (l := rest),
      write_append]
    change writeEach (r.write pa.toNat [b]) _ = _
    rcases eq_or_ne rest [] with rfl | some_rest
    · simp [writeEach, write, run]
    have next : (pa + 1).toNat = pa.toNat + 1 := by
      have := List.length_pos_iff.2 some_rest
      rw [UInt32.toNat_add, UInt32.toNat_one, Nat.mod_eq_of_lt]
      rw [show UInt32.size = 2 ^ 32 from rfl] at room
      omega
    rw [ih _ (by omega), next, List.length_singleton]

end Ram

namespace Memory
open Paging
variable {m m' m₁ : Memory} {root va pa : UInt32} {n a : Nat} {places : List UInt32}

theorem Front.unique {stop stop' : Nat} (h : Front m root va n stop)
    (h' : Front m root va n stop') : stop = stop' := by
  have le := h.le
  have le' := h'.le
  rcases lt_trichotomy stop stop' with lt | same | lt
  · exact absurd (h'.mapped stop lt) (h.ends (by omega))
  · exact same
  · exact absurd (h.mapped stop' lt) (h'.ends (by omega))

/-- Beyond its first address a range ceases to be mapped at the start of a page. -/
theorem Front.starts_page {stop : Nat} (front : Front m root va n stop) (short : stop < n)
    (pos : 0 < stop) : Vaddr.offset (va + UInt32.ofNat stop) = 0 := by
  obtain ⟨pa, place⟩ := front.mapped (stop - 1) (by omega)
  have next : va + UInt32.ofNat (stop - 1) + UInt32.ofNat 1 = va + UInt32.ofNat stop := by
    rw [add_ofNat_add, Nat.sub_add_cancel pos]
  -- otherwise the address before it, which is mapped, lies in the same page
  by_contra inside
  refine front.ends short (next ▸ mapped_in_page place ?_)
  have succ : (va + UInt32.ofNat stop).toNat =
      ((va + UInt32.ofNat (stop - 1)).toNat + 1) % UInt32.size := by
    rw [← next, UInt32.toNat_add]
    rfl
  rw [← UInt32.toNat_inj, Vaddr.toNat_offset, show (0 : UInt32).toNat = 0 from rfl, succ,
    show UInt32.size = 4294967296 from rfl] at inside
  unfold pageRest
  omega

/-- The addresses from `va` on lead to the places in order, up to the first one of `n` addresses
that is not mapped. -/
structure Leads (m : Memory) (root va : UInt32) (n : Nat) (places : List UInt32) : Prop where
  front : Front m root va n places.length
  place : ∀ (i : Nat) (h : i < places.length),
    m.translate root (va + UInt32.ofNat i) = .ok (some places[i])

namespace Leads

theorem nil (ends : 0 < n → ¬ m.Mapped root va) : Leads m root va n [] :=
  ⟨.zero ends, nofun⟩

/-- Places of addresses before a range. -/
theorem append {va' : UInt32} {piece : List UInt32} (rest : Leads m₁ root va' n places)
    (first : ∀ (i : Nat) (h : i < piece.length),
      m.translate root (va + UInt32.ofNat i) = .ok (some piece[i]))
    (same : ∀ i < n, m₁.translate root (va' + UInt32.ofNat i) =
      m.translate root (va + UInt32.ofNat (piece.length + i))) :
    Leads m root va (piece.length + n) (piece ++ places) := by
  have le := rest.front.le
  have front := rest.front.append (fun i hi => ⟨_, first i hi⟩) same
  refine ⟨List.length_append ▸ front, fun i hi => ?_⟩
  rw [List.length_append] at hi
  by_cases early : i < piece.length
  · rw [List.getElem_append_left early]
    exact first i early
  · rw [List.getElem_append_right (by omega), ← rest.place (i - piece.length) (by omega),
      same _ (by omega), show piece.length + (i - piece.length) = i by omega]

theorem unique {others : List UInt32} (h : Leads m root va n places)
    (h' : Leads m root va n others) : places = others := by
  refine List.ext_getElem (h.front.unique h'.front) fun i hi hi' => ?_
  have same := (h.place i hi).symm.trans (h'.place i hi')
  exact Option.some.inj (Except.ok.inj same)

/-- All of the range is mapped as soon as there is a place for each address. -/
theorem length_eq_iff (h : Leads m root va n places) :
    places.length = n ↔ ∀ i < n, m.Mapped root (va + UInt32.ofNat i) := by
  refine ⟨fun full => ?_, fun mapped => ?_⟩
  · obtain rfl := full
    exact h.front.mapped
  · refine h.front.le.antisymm (Nat.not_lt.1 fun short => ?_)
    exact h.front.ends short (mapped _ short)

end Leads

/-- Addresses of one page lead to places that follow each other. -/
theorem translate_run (found : m.translate root va = .ok (some pa)) (inPage : n ≤ pageRest va)
    (i : Nat) (h : i < (Ram.run pa n).length) :
    m.translate root (va + UInt32.ofNat i) = .ok (some (Ram.run pa n)[i]) := by
  rw [Ram.length_run] at h
  obtain ⟨pa', place, address⟩ := translate_in_page found (j := i) (by omega)
  have same : pa' = pa + UInt32.ofNat i := by
    have small := pa'.toNat_lt
    rw [← UInt32.toNat_inj, UInt32.toNat_add, UInt32.toNat_ofNat', address]
    omega
  rw [place, same]
  simp [Ram.run]

theorem exists_leads (m : Memory) (root va : UInt32) (n : Nat) :
    ∃ places, Leads m root va n places := by
  induction n generalizing va with
  | zero => exact ⟨[], .nil (absurd · (lt_irrefl 0))⟩
  | succ n ih =>
    by_cases mapped : m.Mapped root va
    · obtain ⟨pa, found⟩ := mapped
      obtain ⟨places, leads⟩ := ih (va + 1)
      have first (i : Nat) (hi : i < [pa].length) :
          m.translate root (va + UInt32.ofNat i) = .ok (some [pa][i]) := by
        obtain rfl := Nat.lt_one_iff.1 hi
        simpa using found
      have all := leads.append first fun i _ => congrArg (m.translate root) (add_ofNat_add va 1 i)
      exact ⟨pa :: places, n.add_comm 1 ▸ all⟩
    · exact ⟨[], .nil fun _ => mapped⟩

theorem store_eq_ok {addr : UInt32} {data : Bytes} (done : store addr data m = .ok () m') :
    m.ram.Has addr.toNat data.length ∧ m' = { m with ram := m.ram.write addr.toNat data } := by
  obtain ⟨r, ran, rfl⟩ := inRam_eq_ok.1 done
  unfold Ram.store at ran
  split at ran
  · cases ran
    exact ⟨Ram.holds_iff.1 ‹_›, rfl⟩
  · cases ran

/-- A copy to a range writes its bytes one at a time to the places to which the addresses lead, and
tells whether there is a place for each. -/
theorem written_of_writeUser {data : Bytes} (fillable : Fillable m root va data.length) :
    ∃ places, Leads m root va data.length places ∧
      writeUser root va data m = .ok (decide (places.length = data.length))
        { m with ram := m.ram.writeEach (places.zip data) } := by
  unfold writeUser
  fun_induction userPieces va data generalizing m with
  | case1 va => exact ⟨[], .nil (absurd · (lt_irrefl 0)), rfl⟩
  | case2 va data nonempty ih =>
    have length : 0 < data.length := List.length_pos_iff.2 nonempty
    obtain ⟨found, walk, -⟩ := fillable.backed.first length
    have asked : Action.ask (translate · root va) m = .ok found m := Action.ask_of_ok walk
    rw [writePieces, Action.bind_of_ok asked]
    cases found with
    | none =>
      have unmapped : ¬ m.Mapped root va := by simp [Mapped, walk]
      refine ⟨[], .nil fun _ => unmapped, ?_⟩
      rw [decide_eq_false (by rw [List.length_nil]; omega)]
      rfl
    | some pa =>
      obtain ⟨m₁, stored, -, fillable', same⟩ := fillable.store nonempty walk
      obtain ⟨places, leads, written⟩ := ih fillable'
      obtain ⟨room, rfl⟩ := store_eq_ok stored
      generalize piece : data.take (pageRest va) = xs at *
      generalize others : data.drop (pageRest va) = ys at *
      obtain rfl : xs ++ ys = data := by rw [← piece, ← others, List.take_append_drop]
      have inPage : xs.length ≤ pageRest va := piece ▸ List.length_take_le _ _
      have small := m.ram.limit.toNat_lt
      refine ⟨Ram.run pa xs.length ++ places, ?_, ?_⟩
      · have all := leads.append (translate_run walk inPage) (by rwa [Ram.length_run])
        rwa [Ram.length_run, ← List.length_append] at all
      · have reached : places.length = ys.length ↔
            (Ram.run pa xs.length ++ places).length = (xs ++ ys).length := by
          rw [List.length_append, List.length_append, Ram.length_run]
          omega
        have order : m.ram.writeEach ((Ram.run pa xs.length ++ places).zip (xs ++ ys)) =
            (m.ram.write pa.toNat xs).writeEach (places.zip ys) := by
          rw [List.zip_append (Ram.length_run _ _), Ram.writeEach_append,
            Ram.writeEach_run _ (room.2.trans small.le)]
        change (Memory.store pa _ >>= fun _ => writePieces root _) m = _
        rw [Action.bind_of_ok stored, written, decide_eq_decide.2 reached, order]

/-- A copy from a range brings the bytes of the places to which the addresses lead, and tells
whether there is a place for each. -/
theorem readUser_of_leads {buffer : Bytes} (leads : Leads m root va buffer.length places)
    (backed : BackedWhile m root va buffer.length (m.Mapped root)) :
    m.readUser root va buffer = .ok (decide (places.length = buffer.length),
      places.map (fun pa => m.ram.byteAt pa.toNat) ++ buffer.drop places.length) := by
  obtain ⟨data, front, bytes, read⟩ := readUser_of_backed backed
  have length := front.unique leads.front
  have same : data = places.map fun pa => m.ram.byteAt pa.toNat := by
    refine List.ext_getElem (by rw [length, List.length_map]) fun i hi hi' => ?_
    have there := bytes i hi
    rw [byte?_of_translate (leads.place i (length ▸ hi))] at there
    rw [List.getElem_map, Option.some.inj there]
  rw [read, length, same]

/-! ## Conditions that can be checked -/

def place? (m : Memory) (root va : UInt32) : Option UInt32 :=
  match m.translate root va with
  | .ok found => found
  | .error _ => none

theorem place?_eq_some : m.place? root va = some pa ↔ m.translate root va = .ok (some pa) := by
  unfold place?
  rcases m.translate root va with fault | found <;> simp

instance : Decidable (m.Backed root va) :=
  decidable_of_iff ((match m.translate root va with
      | .ok found => found.all fun pa => m.ram.holds pa 1
      | .error _ => false) = true) <| by
    unfold Backed
    rcases m.translate root va with fault | _ | pa <;> simp [Ram.holds_iff, Ram.Has]

instance : Decidable (BackedWhile m root va n (m.Mapped root)) :=
  inferInstanceAs (Decidable (∀ i < n, (∀ j < i, m.Mapped root (va + UInt32.ofNat j)) →
    m.Backed root (va + UInt32.ofNat i)))

-- Here and below `any` and `all` look at what there is. To decide a quantifier over the members of
-- a list or an option is to try every word.
instance : Decidable (m.WalkByte root va a) :=
  decidable_of_iff ((m.walkWords root va).any (fun slot =>
    decide (slot.toNat ≤ a ∧ a < slot.toNat + 4)) = true) <| by
    simp [WalkByte]

instance : Decidable (Fillable m root va n) :=
  decidable_of_iff (BackedWhile m root va n (m.Mapped root) ∧ ∀ i < n, ∀ j < n,
      (m.place? root (va + UInt32.ofNat i)).all (fun pa =>
        decide (¬ m.WalkByte root (va + UInt32.ofNat j) pa.toNat)) = true) <| by
    simp only [Option.all_eq_true, place?_eq_some, decide_eq_true_eq]
    refine ⟨fun ⟨backed, apart⟩ => ⟨backed, ?_⟩, fun h => ⟨h.backed, ?_⟩⟩
    · rintro _ ⟨i, hi, pa, place, rfl⟩ j hj
      exact apart i hi j hj pa place
    · intro i hi j hj pa place
      exact h.apart pa.toNat ⟨i, hi, pa, place, rfl⟩ j hj

/-! ## What was copied is read again -/

/-- Addresses of the range that lie in different pages lead to different frames. -/
def Scattered (m : Memory) (root va : UInt32) (n : Nat) : Prop :=
  ∀ i < n, ∀ j < n, ∀ pa pa',
    m.translate root (va + UInt32.ofNat i) = .ok (some pa) →
      m.translate root (va + UInt32.ofNat j) = .ok (some pa') →
        Vaddr.page pa = Vaddr.page pa' →
          Vaddr.page (va + UInt32.ofNat i) = Vaddr.page (va + UInt32.ofNat j)

instance : Decidable (Scattered m root va n) :=
  decidable_of_iff (∀ i < n, ∀ j < n, (m.place? root (va + UInt32.ofNat i)).all (fun pa =>
      (m.place? root (va + UInt32.ofNat j)).all fun pa' =>
        decide (Vaddr.page pa = Vaddr.page pa' →
          Vaddr.page (va + UInt32.ofNat i) = Vaddr.page (va + UInt32.ofNat j))) = true) <| by
    simp only [Option.all_eq_true, place?_eq_some, decide_eq_true_eq]
    exact forall₄_congr fun i hi j hj => ⟨fun h pa pa' place place' => h pa place pa' place',
      fun h pa place pa' place' => h pa pa' place place'⟩

theorem offset_of_translate (found : m.translate root va = .ok (some pa)) :
    pa.toNat % 4096 = va.toNat % 4096 := by
  obtain ⟨leaf, -, rfl⟩ := translate_eq_some.1 found
  have small : (Vaddr.offset va).toNat < 4096 := by simp only [Vaddr.toNat_offset]; omega
  rw [PageEntry.toNat_frame_add small, PageEntry.toNat_frame, Vaddr.toNat_offset]
  omega

/-- No place has two addresses in a range that does not come back to its start. -/
theorem Scattered.inj (h : Scattered m root va n) (short : n < UInt32.size) {i j : Nat} (hi : i < n)
    (hj : j < n) (first : m.translate root (va + UInt32.ofNat i) = .ok (some pa))
    (second : m.translate root (va + UInt32.ofNat j) = .ok (some pa)) : i = j := by
  have pages := h i hi j hj pa pa first second rfl
  have offsets := (offset_of_translate first).symm.trans (offset_of_translate second)
  rw [← UInt32.toNat_inj, Vaddr.toNat_page, Vaddr.toNat_page] at pages
  have same : va + UInt32.ofNat i = va + UInt32.ofNat j := UInt32.toNat_inj.1 (by omega)
  have indices := congrArg UInt32.toNat ((UInt32.add_right_inj va).1 same)
  rwa [UInt32.toNat_ofNat_of_lt' (hi.trans short), UInt32.toNat_ofNat_of_lt' (hj.trans short)]
    at indices

/-- What was copied to all of a range is read there. -/
theorem readUser_of_writeUser {data buffer : Bytes} (short : data.length < UInt32.size)
    (fillable : Fillable m root va data.length) (scattered : Scattered m root va data.length)
    (written : writeUser root va data m = .ok true m') (size : buffer.length = data.length) :
    m'.readUser root va buffer = .ok (true, data) := by
  obtain ⟨stop, m₁, front, done, copied⟩ := copied_of_writeUser fillable
  obtain ⟨full, rfl⟩ := Action.eq_of_ok done written
  obtain rfl := of_decide_eq_true full
  rw [List.take_length] at copied
  refine readUser_of_places size.symm fun i hi => ?_
  obtain ⟨pa, place⟩ := front.mapped i hi
  have only : ∀ j < data.length, i < j → m.translate root (va + UInt32.ofNat j) ≠ .ok (some pa) :=
    fun j hj lt again => lt.ne (scattered.inj short hi hj place again)
  obtain ⟨found, there, inside⟩ := fillable.backed i hi fun j hj => front.mapped j (hj.trans hi)
  cases there.symm.trans place
  have walk := (fillable.walk_eq copied.changes hi).1.trans place
  refine ⟨pa, walk, ?_, copied.bytes i hi pa place only⟩
  rw [Ram.Has, copied.changes.base, copied.changes.limit]
  exact inside pa rfl

/-- The addresses of a range lead to places up to the first one that is not mapped, where a page
starts. A copy from the range brings the bytes of these places, and a copy to it that spares the
words that guide it writes one byte after the other to them. Both tell whether the whole range is
mapped. What was copied is read again when different pages lead to different frames. -/
theorem copies_bytewise (short : n < UInt32.size)
    (backed : BackedWhile m root va n (m.Mapped root)) :
    ∃ places, Leads m root va n places ∧
      (places.length = n ↔ ∀ i < n, m.Mapped root (va + UInt32.ofNat i)) ∧
      (places.length < n →
        places = [] ∨ Vaddr.offset (va + UInt32.ofNat places.length) = 0) ∧
      (∀ buffer : Bytes, buffer.length = n →
        m.readUser root va buffer = .ok (decide (places.length = n),
          places.map (fun pa => m.ram.byteAt pa.toNat) ++ buffer.drop places.length)) ∧
      (Fillable m root va n → ∀ data : Bytes, data.length = n →
        ∃ m', m' = { m with ram := m.ram.writeEach (places.zip data) } ∧
          writeUser root va data m = .ok (decide (places.length = n)) m' ∧
          (places.length = n → Scattered m root va n →
            ∀ buffer : Bytes, buffer.length = n →
              m'.readUser root va buffer = .ok (true, data))) := by
  obtain ⟨places, leads⟩ := exists_leads m root va n
  refine ⟨places, leads, leads.length_eq_iff, fun stopped => ?_, ?_, ?_⟩
  · rw [← List.length_eq_zero_iff]
    exact (Nat.eq_zero_or_pos _).imp_right (leads.front.starts_page stopped)
  · rintro buffer rfl
    exact readUser_of_leads leads backed
  · rintro fillable data rfl
    obtain ⟨places', leads', written⟩ := written_of_writeUser fillable
    obtain rfl := leads.unique leads'
    refine ⟨_, rfl, written, fun full scattered buffer size => ?_⟩
    rw [decide_eq_true full] at written
    exact readUser_of_writeUser short fillable scattered written size

def twoPages : Memory where
  ram := [(0x80200000, 0x20080401), (0x80200FFC, 0x20080401),
      (0x80201000, 0x20080817), (0x80201FFC, 0x20080C17)].foldl
    (fun r (slot, word) => r.write slot (Bytes.ofLE 4 word)) (.blank 0x80200000 0x80204000)
  frames := ⟨0x80204000, 0x80204000⟩

/-- Four bytes are copied over the end of the addresses and back. -/
theorem copies_bytewise_twoPages :
    4 < UInt32.size ∧
      BackedWhile twoPages 0x80200000 0xFFFFFFFE 4 (twoPages.Mapped 0x80200000) ∧
      ∃ m', writeUser 0x80200000 0xFFFFFFFE [1, 2, 3, 4] twoPages = .ok true m' ∧
        m'.readUser 0x80200000 0xFFFFFFFE [0, 0, 0, 0] = .ok (true, [1, 2, 3, 4]) := by
  have short : 4 < UInt32.size := by decide
  have backed : BackedWhile twoPages 0x80200000 0xFFFFFFFE 4 (twoPages.Mapped 0x80200000) := by
    decide +kernel
  have fillable : Fillable twoPages 0x80200000 0xFFFFFFFE 4 := by decide +kernel
  have scattered : Scattered twoPages 0x80200000 0xFFFFFFFE 4 := by decide +kernel
  obtain ⟨places, -, all, -, -, writes⟩ := copies_bytewise short backed
  have full : places.length = 4 := all.2 (by decide +kernel)
  obtain ⟨m', -, written, back⟩ := writes fillable [1, 2, 3, 4] rfl
  rw [decide_eq_true full] at written
  exact ⟨short, backed, m', written, back full scattered [0, 0, 0, 0] rfl⟩

end Memory
end PocketKernel
