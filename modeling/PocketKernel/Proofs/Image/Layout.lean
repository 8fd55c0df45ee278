import Mathlib
import PocketKernel.Image.Layout
import PocketKernel.Proofs.Image.Flat

/-!
# The image of an accepted file

The segments of a file may lie in any order, meet each other, and be longer in memory than in the
file. Their image begins at the lowest address, ends with the highest segment, and has at each
address the byte of the last segment that has data for it. The checks of the file are what keeps
every copy inside the image, so that nothing but the end of an address range can overflow. Main
statement: `laidOut_of_parse`.
-/
namespace PocketKernel
variable {segments : List Segment} {image : Bytes} {low high : Nat}

theorem addWords_eq_ok {a b c : Nat} :
    addWords a b = .ok c ↔ a + b = c ∧ a + b < UInt64.size := by
  unfold addWords
  split <;> simp [*]

theorem addWords_eq_error {a b : Nat} {e : ElfError} :
    addWords a b = .error e ↔ e = .sumOverflow ∧ UInt64.size ≤ a + b := by
  unfold addWords
  split
  · simp [*]
  · simp [Nat.le_of_not_lt ‹_›, eq_comm]

theorem subWords_of_le {a b : Nat} (h : b ≤ a) : subWords a b = .ok (a - b) := if_pos h

theorem Bytes.overwrite_of_fits {xs ys : Bytes} {start : Nat} (small : xs.length < UInt64.size)
    (fits : start + ys.length ≤ xs.length) : xs.overwrite start ys = .ok (xs.splice start ys) := by
  have sum : addWords start ys.length = .ok (start + ys.length) :=
    addWords_eq_ok.2 ⟨rfl, by omega⟩
  rw [Bytes.overwrite, sum]
  exact if_neg (by omega)

namespace Segment

def covers (address : Nat) (s : Segment) : Bool :=
  decide (s.vaddr ≤ address ∧ address < s.vaddr + s.data.length)

end Segment

namespace LoadPlan

/-- The byte of the last segment that has data for the address, and zero when none has. -/
def lastByte (segments : List Segment) (address : Nat) : UInt8 :=
  match (segments.filter (·.covers address)).getLast? with
  | some s => s.data.getD (address - s.vaddr) 0
  | none => 0

theorem lastByte_append (earlier : List Segment) (s : Segment) (address : Nat) :
    lastByte (earlier ++ [s]) address =
      if s.covers address then s.data.getD (address - s.vaddr) 0 else lastByte earlier address := by
  unfold lastByte
  split_ifs with covered <;> simp [List.filter_append, covered]

/-- What segments with data in the range leave in an image of zeros. -/
theorem getElem?_patch {size : Nat} (inside : ∀ s ∈ segments, low ≤ s.vaddr ∧
    s.vaddr - low + s.data.length ≤ size) {i : Nat} (hi : i < size) :
    ((Bytes.zeros size).patch (segments.map fun s => (s.vaddr - low, s.data)))[i]? =
      some (lastByte segments (low + i)) := by
  induction segments using List.reverseRecOn with
  | nil => simp [Bytes.patch, lastByte, Bytes.zeros, hi]
  | append_singleton earlier s ih =>
    simp only [List.mem_append, List.mem_singleton] at inside
    have before := ih fun t ht => inside t (.inl ht)
    obtain ⟨above, fits⟩ := inside s (.inr rfl)
    have length : ((Bytes.zeros size).patch
        (earlier.map fun s => (s.vaddr - low, s.data))).length = size := by
      rw [Bytes.length_patch, Bytes.length_zeros]
      intro q hq
      obtain ⟨t, ht, rfl⟩ := List.mem_map.1 hq
      rw [Bytes.length_zeros]
      exact (inside t (.inl ht)).2
    have last : (Bytes.zeros size).patch ((earlier ++ [s]).map fun s => (s.vaddr - low, s.data)) =
        ((Bytes.zeros size).patch (earlier.map fun s => (s.vaddr - low, s.data))).splice
          (s.vaddr - low) s.data := by
      simp [Bytes.patch, List.foldl_append]
    rw [last, Bytes.getElem?_splice _ _ _ _ (by rwa [length]), lastByte_append, before]
    by_cases covered : s.covers (low + i) = true
    · have range := covered
      simp only [Segment.covers, decide_eq_true_eq] at range
      have place : i - (s.vaddr - low) = low + i - s.vaddr := by omega
      have inData : low + i - s.vaddr < s.data.length := by omega
      rw [if_pos (by omega), if_pos covered, place, List.getElem?_eq_getElem inData,
        List.getD_eq_getElem _ _ inData]
    · have range := covered
      simp only [Segment.covers, decide_eq_true_eq] at range
      rw [if_neg (by omega), if_neg covered]

/-! ## The arithmetic of the layout -/

theorem stops_of_small (small : ∀ s ∈ segments, s.stop < UInt64.size) :
    stops segments = .ok (segments.map Segment.stop) := by
  induction segments with
  | nil => rfl
  | cons s rest ih =>
    obtain ⟨first, others⟩ := List.forall_mem_cons.1 small
    rw [stops, addWords_eq_ok.2 ⟨rfl, first⟩, ih others]
    rfl

theorem stops_of_large (large : ∃ s ∈ segments, UInt64.size ≤ s.stop) :
    stops segments = .error .sumOverflow := by
  induction segments with
  | nil => obtain ⟨s, hs, -⟩ := large; cases hs
  | cons s rest ih =>
    rw [stops]
    by_cases first : s.stop < UInt64.size
    · rw [addWords_eq_ok.2 ⟨rfl, first⟩, ih]
      · rfl
      · obtain ⟨t, ht, large⟩ := large
        rcases List.mem_cons.1 ht with rfl | later
        · omega
        · exact ⟨t, later, large⟩
    · rw [addWords_eq_error.2 ⟨rfl, Nat.le_of_not_lt first⟩]
      rfl

theorem place_eq (small : image.length < UInt64.size) (inside : ∀ s ∈ segments, low ≤ s.vaddr ∧
    s.vaddr - low + s.data.length ≤ image.length) :
    place low image segments =
      .ok (image.patch (segments.map fun s => (s.vaddr - low, s.data))) := by
  induction segments generalizing image with
  | nil => rfl
  | cons s rest ih =>
    obtain ⟨⟨above, fits⟩, others⟩ := List.forall_mem_cons.1 inside
    have length := Bytes.length_splice image s.data (s.vaddr - low) fits
    rw [place, subWords_of_le above]
    change (image.overwrite (s.vaddr - low) s.data >>= fun image => place low image rest) = _
    rw [Bytes.overwrite_of_fits small fits]
    exact ih (length ▸ small) (length ▸ others)

/-! ## The range of the image -/

/-- Going through a list with a choice between two numbers ends with one of the numbers. -/
theorem foldl_eq_or_exists {choose : Nat → Nat → Nat}
    (chooses : ∀ a b, choose a b = a ∨ choose a b = b) (value : Segment → Nat)
    (segments : List Segment) (start : Nat) :
    segments.foldl (fun found s => choose found (value s)) start = start ∨
      ∃ s ∈ segments, value s = segments.foldl (fun found s => choose found (value s)) start := by
  induction segments generalizing start with
  | nil => exact .inl rfl
  | cons t rest ih =>
    rw [List.foldl_cons]
    rcases ih (choose start (value t)) with same | ⟨s, hs, found⟩
    · rw [same]
      rcases chooses start (value t) with first | second
      · exact .inl first
      · exact .inr ⟨t, List.mem_cons_self, second.symm⟩
    · exact .inr ⟨s, List.mem_cons_of_mem _ hs, found⟩

theorem exists_vaddr_eq (h : base segments = some low) : ∃ s ∈ segments, s.vaddr = low := by
  cases segments with
  | nil => cases h
  | cons t rest =>
    cases h
    rcases foldl_eq_or_exists min_choice Segment.vaddr rest t.vaddr with same | ⟨s, hs, found⟩
    · exact ⟨t, List.mem_cons_self, same.symm⟩
    · exact ⟨s, List.mem_cons_of_mem _ hs, found⟩

theorem exists_stop_eq (h : segments ≠ []) : ∃ s ∈ segments, s.stop = stop segments := by
  rcases foldl_eq_or_exists max_choice Segment.stop segments 0 with same | found
  · obtain ⟨s, hs⟩ := List.exists_mem_of_ne_nil _ h
    exact ⟨s, hs, (Nat.le_zero.1 (same ▸ stop_le segments s hs)).trans same.symm⟩
  · exact found

theorem base_eq_none : base segments = none ↔ segments = [] := by
  cases segments <;> simp [base]

/-- The image begins at the lowest address, ends with the highest segment, and has at each address
the byte of the last segment that has data for it. -/
structure IsImage (segments : List Segment) (image : Bytes) (low high : Nat) : Prop where
  first : ∃ s ∈ segments, s.vaddr = low
  low_le : ∀ s ∈ segments, low ≤ s.vaddr
  last : ∃ s ∈ segments, s.stop = high
  le_high : ∀ s ∈ segments, s.stop ≤ high
  length : image.length = high - low
  byte : ∀ i < image.length, image[i]? = some (lastByte segments (low + i))

theorem Flat.isImage (h : Flat segments image low) :
    IsImage segments image low (stop segments) where
  first := exists_vaddr_eq h.base
  low_le := base_le h.base
  last := exists_stop_eq fun none => nomatch (base_eq_none.2 none).symm.trans h.base
  le_high := stop_le segments
  length := h.length_image
  byte i hi := by
    rw [h.length_image] at hi
    rw [h.image]
    refine getElem?_patch (fun s hs => ?_) hi
    have := h.bounds hs
    have := h.fits s hs
    omega

/-! ## Accepted files -/

variable {p : LoadPlan}

/-- Without an address beyond 64 bits the checks of the layout find nothing. -/
theorem layOut_of_small (fits : ∀ s ∈ p.segments, s.data.length ≤ s.memSize)
    (small : ∀ s ∈ p.segments, s.stop < UInt64.size) : p.layOut = .ok p.flatten := by
  unfold layOut flatten
  cases lowest : base p.segments with
  | none => rfl
  | some low =>
    have flat : Flat p.segments _ low := ⟨lowest, rfl, fits⟩
    have range := flat.isImage
    obtain ⟨bottom, hb, lowest⟩ := range.first
    obtain ⟨top, ht, highest⟩ := range.last
    have below : stop p.segments < UInt64.size := highest ▸ small top ht
    have above : low ≤ stop p.segments :=
      (range.low_le top ht).trans ((Nat.le_add_right _ _).trans highest.le)
    have sums : (p.segments.map Segment.stop).foldl max 0 = stop p.segments := List.foldl_map
    have placed : place low (Bytes.zeros (stop p.segments - low)) p.segments =
        .ok ((Bytes.zeros (stop p.segments - low)).patch
          (p.segments.map fun s => (s.vaddr - low, s.data))) := by
      refine place_eq (by rw [Bytes.length_zeros]; omega) fun s hs => ?_
      have := flat.bounds hs
      have := fits s hs
      rw [Bytes.length_zeros]
      omega
    dsimp only
    rw [stops_of_small small]
    change (subWords ((p.segments.map Segment.stop).foldl max 0) low >>= fun size =>
      place low (Bytes.zeros size) p.segments >>= fun image => pure (some (image, low))) = _
    rw [sums, subWords_of_le above]
    change (place low (Bytes.zeros (stop p.segments - low)) p.segments >>= fun image =>
      pure (some (image, low))) = _
    rw [placed, Bytes.patch, List.foldl_map]
    rfl

theorem layOut_of_large (large : ∃ s ∈ p.segments, UInt64.size ≤ s.stop) :
    p.layOut = .error .sumOverflow := by
  unfold layOut
  cases lowest : base p.segments with
  | none =>
    obtain ⟨s, hs, -⟩ := large
    rw [base_eq_none.1 lowest] at hs
    cases hs
  | some low =>
    dsimp only
    rw [stops_of_large large]
    rfl

/-- Nothing goes wrong in the layout but that an address range ends beyond 64 bits. -/
theorem layOut_eq_error (fits : ∀ s ∈ p.segments, s.data.length ≤ s.memSize) {e : ElfError} :
    p.layOut = .error e ↔ e = .sumOverflow ∧ ∃ s ∈ p.segments, UInt64.size ≤ s.stop := by
  by_cases large : ∃ s ∈ p.segments, UInt64.size ≤ s.stop
  · simp [layOut_of_large large, large, eq_comm]
  · have small : ∀ s ∈ p.segments, s.stop < UInt64.size := by simpa using large
    rw [layOut_of_small fits small]
    exact ⟨nofun, fun h => absurd h.2 large⟩

theorem data_le_of_ofFile {file : Bytes} {headers : List ProgramHeader}
    (loaded : Segment.ofFile file headers = .ok segments) :
    ∀ s ∈ segments, s.data.length ≤ s.memSize := by
  obtain ⟨rfl, fits⟩ := Segment.ofFile_eq_ok loaded
  rw [List.forall_mem_map]
  exact fun h hh => (fits h hh).length_data.trans_le (fits h hh).inMemory

/-- The image that the layout makes is the flat image. -/
theorem flatten_of_layOut {made : Option (Bytes × Nat)}
    (fits : ∀ s ∈ p.segments, s.data.length ≤ s.memSize) (done : p.layOut = .ok made) :
    p.flatten = made := by
  by_cases large : ∃ s ∈ p.segments, UInt64.size ≤ s.stop
  · rw [layOut_of_large large] at done
    cases done
  · have small : ∀ s ∈ p.segments, s.stop < UInt64.size := by simpa using large
    rw [layOut_of_small fits small] at done
    exact Except.ok.inj done

end LoadPlan

end PocketKernel
