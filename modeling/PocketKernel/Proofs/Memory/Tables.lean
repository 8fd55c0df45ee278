import Mathlib
import PocketKernel.Memory.Space
import PocketKernel.Proofs.Memory.Ram
import PocketKernel.Proofs.Paging.Lawful

/-!
# Page tables in memory

Memory keeps what the page-table code relies on, as long as its free frames are aligned and lie in
it: the frames below the free ones are in use, and a frame that is taken is cleared.
-/
namespace PocketKernel.Memory
open TableView TableMemory

/-- The free frames are aligned, and memory reaches from their first frame or below to their end. -/
structure InOrder (m : Memory) : Prop where
  aligned : m.frames.next.toNat % 4096 = 0
  base : m.ram.base.toNat ≤ m.frames.next.toNat
  limit : m.frames.limit.toNat ≤ m.ram.limit.toNat

structure Taken (m : Memory) (page : UInt32) : Prop where
  aligned : Vaddr.aligned page = true
  base : m.ram.base.toNat ≤ page.toNat
  limit : page.toNat + 4096 ≤ m.ram.limit.toNat
  next : page.toNat + 4096 ≤ m.frames.next.toNat

instance : TableView Memory where
  Good := InOrder
  Ready := Taken
  word m page index := m.ram.wordAt (page + index * 4)

variable {m m' : Memory} {page index : UInt32}

theorem Taken.holds (h : m.Taken page) (hi : index.toNat < 1024) :
    m.ram.holds (page + index * 4) 4 = true := by
  have := h.base
  have := h.limit
  rw [Ram.holds_iff, toNat_wordAddr h.aligned hi]
  omega

/-- The word of a page changes only with a byte of the page. -/
theorem word_congr (aligned : Vaddr.aligned page = true) (hi : index.toNat < 1024)
    (same : ∀ a, page.toNat ≤ a → a < page.toNat + 4096 → m'.ram.byteAt a = m.ram.byteAt a) :
    word m' page index = word m page index := by
  refine Ram.wordAt_congr ?_
  intro a ha ha'
  rw [toNat_wordAddr aligned hi] at ha ha'
  exact same a (by omega) (by omega)

/-- The bytes of a page change only with one of its words. -/
theorem byteAt_of_words (aligned : Vaddr.aligned page = true)
    (same : ∀ i : UInt32, i.toNat < 1024 → word m' page i = word m page i) {a : Nat}
    (low : page.toNat ≤ a) (high : a < page.toNat + 4096) :
    m'.ram.byteAt a = m.ram.byteAt a := by
  obtain ⟨n, hn⟩ : ∃ n, n = (a - page.toNat) / 4 := ⟨_, rfl⟩
  have index : (UInt32.ofNat n).toNat = n := UInt32.toNat_ofNat_of_lt' (by
    rw [show UInt32.size = 4294967296 from rfl]
    omega)
  have place := toNat_wordAddr aligned (i := UInt32.ofNat n) (by omega)
  have bytes := Ram.bytes_of_wordAt (same (UInt32.ofNat n) (by omega))
  rw [place, index] at bytes
  have hit := List.getElem_of_eq bytes (i := (a - page.toNat) % 4) (by
    rw [Ram.length_bytes]
    omega)
  rw [Ram.getElem_bytes, Ram.getElem_bytes] at hit
  rwa [show page.toNat + n * 4 + (a - page.toNat) % 4 = a by omega] at hit

theorem inRam_of_ok {α : Type} {x : Action Ram α} {a : α} {r : Ram} (h : x m.ram = .ok a r) :
    inRam x m = .ok a { m with ram := r } :=
  Action.within_of_ok h

theorem inRam_eq_ok {α : Type} {x : Action Ram α} {a : α} :
    inRam x m = .ok a m' ↔ ∃ r, x m.ram = .ok a r ∧ m' = { m with ram := r } :=
  Action.within_eq_ok

theorem storeWord_of_taken (good : m.InOrder) (taken : m.Taken page) (hi : index.toNat < 1024)
    (value : UInt32) :
    ∃ m', storeWord (page + index * 4) value m = .ok () m' ∧ Stores page index value m m' := by
  have place := toNat_wordAddr taken.aligned hi
  have small := (page + index * 4).toNat_lt
  have room : (page + index * 4).toNat + 4 ≤ UInt32.size := by
    have aligned := Vaddr.aligned_iff.1 taken.aligned
    have := page.toNat_lt
    rw [place, show UInt32.size = 4294967296 from rfl]
    omega
  have length : (Bytes.ofLE 4 value.toNat).length = 4 := Bytes.length_ofLE _ _
  have hold : m.ram.holds (page + index * 4) (Bytes.ofLE 4 value.toNat).length = true := by
    rw [length]
    exact taken.holds hi
  have stored := Ram.store_of_holds hold
  refine ⟨_, inRam_of_ok stored, ⟨good.aligned, good.base, good.limit⟩,
    ⟨fun h => ⟨h.aligned, h.base, h.limit, h.next⟩, fun h => ⟨h.aligned, h.base, h.limit, h.next⟩⟩,
    fun {p i} hp h => ?_⟩
  change (Ram.write ..).wordAt (p + i * 4) = _
  by_cases same : p = page ∧ i = index
  · obtain ⟨rfl, rfl⟩ := same
    rw [if_pos ⟨rfl, rfl⟩]
    exact m.ram.wordAt_write_ofLE value room
  · rw [if_neg same]
    have apart : p + i * 4 ≠ page + index * 4 := by
      rwa [ne_eq, wordAddr_inj hp.aligned taken.aligned h hi]
    have place' := toNat_wordAddr hp.aligned h
    have aligned := Vaddr.aligned_iff.1 taken.aligned
    have aligned' := Vaddr.aligned_iff.1 hp.aligned
    rw [ne_eq, ← UInt32.toNat_inj] at apart
    have := p.toNat_lt
    refine Ram.wordAt_congr ?_
    intro a ha ha'
    refine Ram.byteAt_write_of_outside _ ?_ ?_
    · rw [length]
      omega
    · rw [show UInt32.size = 4294967296 from rfl]
      omega

def takeNext (m : Memory) : Memory :=
  ⟨m.ram.clear m.frames.next.toNat 4096, { m.frames with next := m.frames.next + 4096 }⟩

@[simp] theorem frames_limit_takeNext (m : Memory) :
    m.takeNext.frames.limit = m.frames.limit := by
  simp only [takeNext]

def HasFrame (m : Memory) : Prop :=
  m.frames.next.toNat + 4096 < UInt32.size ∧ m.frames.next.toNat + 4096 ≤ m.frames.limit.toNat

theorem HasFrame.toNat_next (h : m.HasFrame) :
    m.takeNext.frames.next.toNat = m.frames.next.toNat + 4096 := by
  rw [takeNext, UInt32.toNat_add]
  exact Nat.mod_eq_of_lt h.1

theorem takeFrames_one_of_hasFrame (good : m.InOrder) (h : m.HasFrame) (none : Fault) :
    takeFrames 1 none m = .ok m.frames.next m.takeNext := by
  have next : UInt32.ofNat (m.frames.next.toNat + 1 * 4096) = m.frames.next + 4096 := by
    rw [← UInt32.toNat_inj, UInt32.toNat_ofNat_of_lt' h.1]
    exact h.toNat_next.symm
  have given : m.frames.alloc 1 =
      some (m.frames.next, { m.frames with next := m.frames.next + 4096 }) := by
    unfold Frames.alloc
    simp only [next, Nat.one_mul]
    exact if_pos h
  have hold : m.ram.holds m.frames.next 4096 = true := by
    have := good.base
    have := good.limit
    have := h.2
    rw [Ram.holds_iff]
    omega
  unfold takeFrames
  rw [Action.get_bind, given]
  have cleared : inRam (Ram.zero m.frames.next (1 * pageSize))
      ({ m with frames := { m.frames with next := m.frames.next + 4096 } } : Memory) =
        .ok () m.takeNext := by
    refine inRam_of_ok ?_
    change (if m.ram.holds m.frames.next 4096 then _ else _) = _
    rw [if_pos hold]
    rfl
  exact Action.bind_of_ok cleared

theorem takeFrames_one_of_not_hasFrame (h : ¬ m.HasFrame) (none : Fault) :
    takeFrames 1 none m = .error none m := by
  have refused : m.frames.alloc 1 = Option.none := by
    unfold Frames.alloc
    simp only [Nat.one_mul]
    exact if_neg h
  unfold takeFrames
  rw [Action.get_bind, refused]
  rfl

theorem takeFrames_one_eq_ok (good : m.InOrder) {none : Fault}
    (done : takeFrames 1 none m = .ok page m') :
    m.HasFrame ∧ page = m.frames.next ∧ m' = m.takeNext := by
  by_cases h : m.HasFrame
  · rw [takeFrames_one_of_hasFrame good h] at done
    cases done
    exact ⟨h, rfl, rfl⟩
  · rw [takeFrames_one_of_not_hasFrame h] at done
    cases done

/-- The frame that is taken was not in use, and nothing else changes. -/
theorem keeps_takeNext (good : m.InOrder) (h : m.HasFrame) :
    Keeps m m.takeNext ∧ ¬ m.Taken m.frames.next ∧ m.takeNext.Taken m.frames.next ∧
      ∀ index : UInt32, index.toNat < 1024 → word m.takeNext m.frames.next index = 0 := by
  have next := h.toNat_next
  have := good.aligned
  have := good.base
  have := good.limit
  have := h.2
  have := m.frames.next.toNat_lt
  have size : UInt32.size = 4294967296 := rfl
  have aligned : Vaddr.aligned m.frames.next = true := Vaddr.aligned_iff.2 good.aligned
  have limit : m.takeNext.ram.limit = m.ram.limit := rfl
  refine ⟨⟨⟨?_, ?_, by simpa [limit] using good.limit⟩, fun {p} hp => ?_, fun {p i} hp hi => ?_⟩,
    fun hp => ?_, ?_, ?_⟩
  · rw [next]
    omega
  · rw [next]
    exact good.base.trans (Nat.le_add_right _ _)
  · exact ⟨hp.aligned, hp.base, hp.limit, by rw [next]; exact hp.next.trans (Nat.le_add_right _ _)⟩
  · have := hp.next
    refine word_congr hp.aligned hi ?_
    intro a ha ha'
    exact (Ram.byteAt_clear _ _ _ (by omega)).trans (if_neg (by omega))
  · have := hp.next
    omega
  · exact ⟨aligned, good.base, h.2.trans good.limit, next.ge⟩
  · intro i hi
    have place := toNat_wordAddr aligned hi
    refine Ram.wordAt_eq_zero ?_
    intro a ha ha'
    rw [place] at ha ha'
    exact (Ram.byteAt_clear _ _ _ (by omega)).trans (if_pos (by omega))

instance : LawfulTableMemory Memory where
  aligned_of_ready h := h.aligned
  loadWord_ready _ taken hi := Ram.loadWord_of_holds (taken.holds hi)
  storeWord_ready value good taken hi := storeWord_of_taken good taken hi value
  allocTable_good {m} good := by
    by_cases h : m.HasFrame
    · obtain ⟨keeps, fresh, ready, zero⟩ := keeps_takeNext good h
      exact .inr ⟨_, _, takeFrames_one_of_hasFrame good h _, keeps, fresh, ready, zero⟩
    · exact .inl ⟨m, takeFrames_one_of_not_hasFrame h _, .refl good⟩

end PocketKernel.Memory
