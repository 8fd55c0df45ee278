import Mathlib
import PocketKernel.Proofs.Image.Headers

/-!
# Flat images

The segments of an accepted file are its headers to be loaded, in order, each with its bytes of the
file. The image of segments that do not meet has at each address of a segment the segment's byte or
a zero behind its data, and zeros between the segments. Main statements:
`Segment.ofFile_eq_ok`, `Flat.inside`, `Flat.outside` and, said of a file, `lays_of_flatten`.
-/
namespace PocketKernel

def ProgramHeader.Apart (g h : ProgramHeader) : Prop :=
  g.vaddr + g.memSize ≤ h.vaddr ∨ h.vaddr + h.memSize ≤ g.vaddr

instance (g h : ProgramHeader) : Decidable (g.Apart h) := inferInstanceAs (Decidable (_ ∨ _))

/-- The byte at place `i` of a segment: that of the file, and zero behind the bytes of the file. -/
def ProgramHeader.byte? (file : Bytes) (h : ProgramHeader) (i : Nat) : Option UInt8 :=
  if i < h.fileSize then file[h.fileOffset + i]? else some 0

namespace Segment

def Apart (s t : Segment) : Prop := s.stop ≤ t.vaddr ∨ t.stop ≤ s.vaddr

instance : Std.Symm Apart := ⟨fun _ _ => Or.symm⟩

def stored (file : Bytes) (h : ProgramHeader) : Segment :=
  ⟨h.vaddr, h.memSize, (file.drop h.fileOffset).take h.fileSize⟩

structure Fits (file : Bytes) (h : ProgramHeader) : Prop where
  inMemory : h.fileSize ≤ h.memSize
  inFile : h.fileOffset + h.fileSize ≤ file.length

namespace Fits
variable {file : Bytes} {h : ProgramHeader} (fits : Fits file h)
include fits

theorem length_data : (stored file h).data.length = h.fileSize := by
  have := fits.inFile
  rw [stored, List.length_take, List.length_drop]
  omega

theorem byte?_eq (i : Nat) : h.byte? file i = some ((stored file h).data.getD i 0) := by
  unfold ProgramHeader.byte?
  split
  next data =>
    have inFile := fits.inFile
    have there : h.fileOffset + i < file.length := by omega
    rw [List.getD_eq_getElem?_getD, stored, List.getElem?_take_of_lt data, List.getElem?_drop,
      List.getElem?_eq_getElem there, Option.getD_some]
  next behind =>
    rw [List.getD_eq_default _ _ (by rw [fits.length_data]; omega)]

end Fits

theorem ofHeader_eq_ok {file : Bytes} {h : ProgramHeader} {s : Segment}
    (done : ofHeader file h = .ok s) : s = stored file h ∧ Fits file h := by
  unfold ofHeader at done
  split at done
  · cases done
  next fits =>
  obtain ⟨-, -, done⟩ := Except.bind_eq_ok.1 done
  split at done
  · cases done
  next data found =>
  unfold Bytes.slice? at found
  split at found
  next inside =>
    cases found
    cases done
    exact ⟨rfl, by omega, inside⟩
  next => cases found

theorem mapM_ofHeader_eq_ok {file : Bytes} {headers : List ProgramHeader} {segments : List Segment}
    (done : headers.mapM (ofHeader file) = .ok segments) :
    segments = headers.map (stored file) ∧ ∀ h ∈ headers, Fits file h := by
  replace done := Except.mapM_eq_ok.1 done
  induction done with
  | nil => exact ⟨rfl, nofun⟩
  | cons first _ ih =>
    obtain ⟨rfl, fits⟩ := ofHeader_eq_ok first
    obtain ⟨rfl, later⟩ := ih
    exact ⟨rfl, List.forall_mem_cons.2 ⟨fits, later⟩⟩

/-- A file is accepted when the bytes of all headers to be loaded fit. -/
theorem ofFile_eq_ok {file : Bytes} {headers : List ProgramHeader} {segments : List Segment}
    (done : ofFile file headers = .ok segments) :
    segments = (headers.filter isLoaded).map (stored file) ∧
      ∀ h ∈ headers.filter isLoaded, Fits file h :=
  mapM_ofHeader_eq_ok done

end Segment

namespace LoadPlan

theorem ofFile_eq_ok {read : ProgramReader} {file : Bytes} {plan : LoadPlan} :
    ofFile read file = .ok plan ↔ ∃ p, read file = .ok p ∧ p.entry = plan.entry ∧
      Segment.ofFile file p.headers = .ok plan.segments := by
  unfold ofFile
  simp only [Except.bind_eq_ok, Except.mapError_eq_ok, pure, Except.pure, Except.ok.injEq]
  constructor
  · rintro ⟨p, found, segments, loaded, rfl⟩
    exact ⟨p, found, rfl, loaded⟩
  · rintro ⟨p, found, entry, loaded⟩
    exact ⟨p, found, _, loaded, congrArg (LoadPlan.mk · _) entry⟩

/-- The segments of an accepted file are those of the program headers that are stored in it. -/
theorem ofFile_storedHeaders {read : ProgramReader} {file : Bytes} {plan : LoadPlan}
    (faithful : ReportsStored read) (accepted : ofFile read file = .ok plan) :
    Segment.ofFile file (storedHeaders file) = .ok plan.segments := by
  obtain ⟨p, found, -, loaded⟩ := ofFile_eq_ok.1 accepted
  exact faithful file p found ▸ loaded

theorem foldl_min_le (segments : List Segment) (low : Nat) :
    segments.foldl (fun low t => min low t.vaddr) low ≤ low ∧
      ∀ s ∈ segments, segments.foldl (fun low t => min low t.vaddr) low ≤ s.vaddr := by
  induction segments generalizing low with
  | nil => exact ⟨le_rfl, nofun⟩
  | cons t rest ih =>
    obtain ⟨first, others⟩ := ih (min low t.vaddr)
    rw [List.foldl_cons]
    exact ⟨first.trans (min_le_left _ _),
      List.forall_mem_cons.2 ⟨first.trans (min_le_right _ _), others⟩⟩

theorem le_foldl_max (segments : List Segment) (high : Nat) :
    high ≤ segments.foldl (fun high t => max high t.stop) high ∧
      ∀ s ∈ segments, s.stop ≤ segments.foldl (fun high t => max high t.stop) high := by
  induction segments generalizing high with
  | nil => exact ⟨le_rfl, nofun⟩
  | cons t rest ih =>
    obtain ⟨first, others⟩ := ih (max high t.stop)
    rw [List.foldl_cons]
    exact ⟨(le_max_left _ _).trans first,
      List.forall_mem_cons.2 ⟨(le_max_right _ _).trans first, others⟩⟩

theorem base_le {segments : List Segment} {low : Nat} (h : base segments = some low) :
    ∀ s ∈ segments, low ≤ s.vaddr := by
  cases segments with
  | nil => cases h
  | cons t rest =>
    cases h
    exact List.forall_mem_cons.2 (foldl_min_le rest t.vaddr)

theorem stop_le (segments : List Segment) : ∀ s ∈ segments, s.stop ≤ stop segments :=
  (le_foldl_max segments 0).2

/-! ## The bytes of an image -/

structure Flat (segments : List Segment) (image : Bytes) (low : Nat) : Prop where
  base : base segments = some low
  image : image = (Bytes.zeros (stop segments - low)).patch
    (segments.map fun s => (s.vaddr - low, s.data))
  fits : ∀ s ∈ segments, s.data.length ≤ s.memSize

theorem flat_of_flatten {p : LoadPlan} {image : Bytes} {low : Nat}
    (flattened : p.flatten = some (image, low))
    (fits : ∀ s ∈ p.segments, s.data.length ≤ s.memSize) : Flat p.segments image low := by
  obtain ⟨found, lowest, same⟩ := Option.map_eq_some_iff.1 flattened
  cases same
  exact ⟨lowest, by rw [Bytes.patch, List.foldl_map], fits⟩

namespace Flat
variable {segments : List Segment} {image : Bytes} {low : Nat} (h : Flat segments image low)
include h

/-- A segment lies in the image. -/
theorem bounds {s : Segment} (hs : s ∈ segments) :
    low ≤ s.vaddr ∧ s.vaddr - low + s.memSize ≤ stop segments - low := by
  have first := base_le h.base s hs
  have last := stop_le segments s hs
  rw [Segment.stop] at last
  omega

theorem patches_fit : ∀ q ∈ segments.map fun s => (s.vaddr - low, s.data),
    q.1 + q.2.length ≤ (Bytes.zeros (stop segments - low)).length := by
  rintro q hq
  obtain ⟨s, hs, rfl⟩ := List.mem_map.1 hq
  have inside := h.bounds hs
  have := h.fits s hs
  rw [Bytes.length_zeros]
  dsimp only
  omega

theorem length_image : image.length = stop segments - low := by
  rw [h.image, Bytes.length_patch _ _ h.patches_fit, Bytes.length_zeros]

/-- Where no data are put, the image is zero. -/
theorem outside {i : Nat}
    (clear : ∀ s ∈ segments, low + i < s.vaddr ∨ s.vaddr + s.data.length ≤ low + i) :
    image.getD i 0 = 0 := by
  have untouched := Bytes.range_patch_of_disjoint (Bytes.zeros (stop segments - low))
    (segments.map fun s => (s.vaddr - low, s.data)) i 1 h.patches_fit <| by
      intro q hq
      obtain ⟨s, hs, rfl⟩ := List.mem_map.1 hq
      have := (h.bounds hs).1
      dsimp only
      rcases clear s hs with below | above
      · exact .inl (by omega)
      · exact .inr (by omega)
  rw [← h.image] at untouched
  have byte := congrArg (fun xs : Bytes => xs[0]?) untouched
  simp only [Bytes.getElem?_range, Nat.lt_add_one, if_true, Nat.add_zero] at byte
  rw [List.getD_eq_getElem?_getD, byte, ← List.getD_eq_getElem?_getD]
  exact Bytes.getD_append_zeros [] _ i

/-- Where no later segment puts data, the data of a segment are in the image. -/
theorem data_of_split {earlier later : List Segment} {s : Segment}
    (split : segments = earlier ++ s :: later) (behind : ∀ t ∈ later, s.Apart t) {i : Nat}
    (hi : i < s.data.length) : image.getD (s.vaddr - low + i) 0 = s.data.getD i 0 := by
  subst split
  have member : s ∈ earlier ++ s :: later := List.mem_append_right _ List.mem_cons_self
  have placed := Bytes.range_patch (Bytes.zeros (stop (earlier ++ s :: later) - low)) s.data
    (s.vaddr - low) (earlier.map fun t => (t.vaddr - low, t.data))
    (later.map fun t => (t.vaddr - low, t.data)) (by simpa using h.patches_fit) <| by
      intro q hq
      obtain ⟨t, ht, rfl⟩ := List.mem_map.1 hq
      have other : t ∈ earlier ++ s :: later :=
        List.mem_append_right _ (List.mem_cons_of_mem _ ht)
      have := h.fits s member
      have := h.fits t other
      have := (h.bounds member).1
      have := (h.bounds other).1
      have meets := behind t ht
      unfold Segment.Apart Segment.stop at meets
      dsimp only
      omega
  have all : image = (Bytes.zeros (stop (earlier ++ s :: later) - low)).patch
      (earlier.map (fun t => (t.vaddr - low, t.data)) ++ (s.vaddr - low, s.data) ::
        later.map fun t => (t.vaddr - low, t.data)) := by
    simpa using h.image
  rw [← all] at placed
  have byte := congrArg (fun xs : Bytes => xs[i]?) placed
  simp only [Bytes.getElem?_range, if_pos hi] at byte
  rw [List.getD_eq_getElem?_getD, byte, List.getD_eq_getElem?_getD]

/-- Segments that do not meet have their data in the image and zeros behind the data. -/
theorem inside (apart : segments.Pairwise Segment.Apart) {s : Segment} (hs : s ∈ segments) {i : Nat}
    (hi : i < s.memSize) : image.getD (s.vaddr - low + i) 0 = s.data.getD i 0 := by
  by_cases data : i < s.data.length
  · obtain ⟨earlier, later, split⟩ := List.append_of_mem hs
    have tail := (List.pairwise_append.1 (split ▸ apart)).2.1
    exact h.data_of_split split (List.pairwise_cons.1 tail).1 data
  · have low_le := (h.bounds hs).1
    rw [List.getD_eq_default s.data _ (by omega)]
    refine h.outside fun t ht => ?_
    by_cases same : t = s
    · subst same
      omega
    · have := h.fits t ht
      have meets := apart.forall hs ht fun eq => same eq.symm
      unfold Segment.Apart Segment.stop at meets
      omega

end Flat

/-- The image of a file has the bytes of its segments, and zeros between them. -/
structure Lays (file : Bytes) (headers : List ProgramHeader) (image : Bytes) (low : Nat) :
    Prop where
  nonempty : image ≠ []
  inside : ∀ h ∈ headers, ∀ i < h.memSize, low ≤ h.vaddr ∧ h.vaddr - low + i < image.length ∧
    h.byte? file i = some (image.getD (h.vaddr - low + i) 0)
  outside : ∀ i, (∀ h ∈ headers, ∀ j < h.memSize, low + i ≠ h.vaddr + j) → image.getD i 0 = 0

theorem lays_of_flatten {file : Bytes} {headers : List ProgramHeader} {plan : LoadPlan}
    {image : Bytes} {low : Nat} (loaded : Segment.ofFile file headers = .ok plan.segments)
    (apart : (headers.filter Segment.isLoaded).Pairwise ProgramHeader.Apart)
    (flattened : plan.flatten = some (image, low)) :
    Lays file (headers.filter Segment.isLoaded) image low := by
  obtain ⟨segments, fits⟩ := Segment.ofFile_eq_ok loaded
  have stored : ∀ h ∈ headers.filter Segment.isLoaded, Segment.stored file h ∈ plan.segments :=
    fun h hh => segments ▸ List.mem_map_of_mem hh
  have flat : Flat plan.segments image low := by
    refine flat_of_flatten flattened ?_
    rw [segments, List.forall_mem_map]
    exact fun h hh => (fits h hh).length_data.trans_le (fits h hh).inMemory
  have apart' : plan.segments.Pairwise Segment.Apart := by
    rw [segments, List.pairwise_map]
    exact apart
  refine ⟨?_, fun h hh i hi => ?_, fun i clear => ?_⟩
  · -- the first segment has a byte
    obtain ⟨h, hh⟩ : ∃ h, h ∈ headers.filter Segment.isLoaded := by
      refine List.exists_mem_of_ne_nil _ fun none => ?_
      have lowest := flat.base
      rw [segments, none] at lowest
      cases lowest
    have loaded := (List.mem_filter.1 hh).2
    have bounds := (flat.bounds (stored h hh)).2
    rw [← flat.length_image] at bounds
    have : h.memSize ≠ 0 := by
      simp only [Segment.isLoaded, Bool.and_eq_true, bne_iff_ne] at loaded
      exact loaded.2
    rintro rfl
    have : h.memSize ≤ 0 := (Nat.le_add_left _ _).trans bounds
    omega
  · have bounds := flat.bounds (stored h hh)
    rw [← flat.length_image] at bounds
    refine ⟨bounds.1, lt_of_lt_of_le (Nat.add_lt_add_left hi _) bounds.2, ?_⟩
    rw [(fits h hh).byte?_eq, ← flat.inside apart' (stored h hh) hi]
    rfl
  · refine flat.outside ?_
    rw [segments, List.forall_mem_map]
    intro h hh
    by_contra meets
    have length := (fits h hh).length_data
    have inMemory := (fits h hh).inMemory
    change ¬ (low + i < h.vaddr ∨ h.vaddr + (Segment.stored file h).data.length ≤ low + i) at meets
    exact clear h hh (low + i - h.vaddr) (by omega) (by omega)

end LoadPlan

end PocketKernel
