import Mathlib
import PocketKernel.Proofs.Memory.UserBytes
import PocketKernel.Proofs.Paging.Range

/-!
# New address spaces in memory

Tables, pages and roots come from the same free frames while other tables are written. What building
an address space and loading an image into it do is said here in full: which leaves there are, what
the new pages hold, and that the tables and the plain pages of before stay as they were. Main
statements: `Builds.of_done`, `Loads.of_done` and `Loads.readUser`.
-/
namespace PocketKernel.Memory
open Paging TableView TableMemory
variable {roots : Set UInt32} {m m' : Memory} {root va : UInt32} {perms : Perms}

/-! ## Address spaces -/

/-- A new root with the pages of a window and of a device, all mapped to themselves. -/
structure Builds (roots : Set UInt32) (root start length device : UInt32) (m m' : Memory) :
    Prop where
  fresh : root ∉ roots
  isolated : Isolated (insert root roots) m'
  leaf : ∀ a, leafAt m' root a =
    if Vaddr.page a = Vaddr.page device then some (PageEntry.make device Perms.kernelRw.flags)
    else if Vaddr.InPages start (pageCount length.toNat) a then
      some (PageEntry.make (Vaddr.start a) Perms.kernelRwx.flags)
    else none
  older : ∀ r ∈ roots, ∀ a, leafAt m' r a = leafAt m r a
  plain : ∀ {p}, Plain roots m p → Plain (insert root roots) m' p
  word : ∀ {p}, Plain roots m p → ∀ i : UInt32, i.toNat < 1024 → word m' p i = word m p i

theorem Builds.of_done {start length device : UInt32} (h : Isolated roots m)
    (done : (do
      let root ← allocPages 1
      identityMap root start length .kernelRwx
      mapPage root device device .kernelRw
      pure root : Action Memory UInt32) m = .ok root m') :
    Builds roots root start length device m m' := by
  obtain ⟨page, m₁, taken, mapping⟩ := Action.bind_eq_ok.1 done
  obtain ⟨⟨⟩, m₂, window, others⟩ := Action.bind_eq_ok.1 mapping
  obtain ⟨⟨⟩, m₃, mapped, ended⟩ := Action.bind_eq_ok.1 others
  cases ended
  obtain ⟨free, rfl, rfl⟩ := takeFrames_one_eq_ok h.forest.good taken
  obtain ⟨keeps, fresh, ready, zero⟩ := keeps_takeNext h.forest.good free
  unfold identityMap at window
  unfold mapPage at mapped
  rw [Action.orElseFault_eq_ok] at window mapped
  have rooted := h.insert_root keeps fresh ready zero
  have here : m.frames.next ∈ insert m.frames.next roots := Set.mem_insert _ _
  have isolated := rooted.mapPages here rfl window
  have range := rooted.forest.mapsRange here (pageCount_mul_le length) window
  obtain ⟨-, -, last⟩ := isolated.forest.maps_of_mapPage here mapped
  have spares := range.spares.trans (last.spares here)
  have notRoot : ∀ r ∈ roots, r ≠ m.frames.next := by
    rintro r hr rfl
    exact fresh (h.forest.root _ hr)
  refine ⟨fun old => notRoot _ old rfl, isolated.mapPage here rfl mapped, fun a => ?_,
    fun r hr a => ?_, fun plain => ?_, fun plain i hi => ?_⟩
  · have blank : leafAt m.takeNext m.frames.next a = none := by
      rw [leafAt, if_neg]
      rw [Linked, zero _ (Vaddr.directoryIndex_lt a)]
      decide
    have same : start + (Vaddr.start a - start) = Vaddr.start a := by
      rw [UInt32.add_comm, UInt32.sub_add_cancel]
    simp only [last.leaf _ here, range.leaf _ here, blank, same, true_and]
  · have old := Set.mem_insert_of_mem m.frames.next hr
    simp only [last.leaf r old, range.leaf r old, notRoot r hr, false_and, if_false]
    exact (h.forest.keeps keeps).2 r hr a
  · exact spares.plain (h.forest.plain_insert keeps fresh zero plain)
  · have still := spares.word (h.forest.plain_insert keeps fresh zero plain) i hi
    exact still.trans (keeps.word plain.ready hi)

/-! ## Images -/

structure LoadsPage (roots : Set UInt32) (root va : UInt32) (perms : Perms) (piece : Bytes)
    (m m' : Memory) : Prop where
  isolated : Isolated roots m'
  spares : Spares roots m m'
  next : m.frames.next.toNat + 4096 ≤ m'.frames.next.toNat
  aligned : Vaddr.aligned va = true
  page : ∃ page, Plain roots m' page ∧
    (∀ j < 4096, m'.ram.byteAt (page.toNat + j) = piece.getD j 0) ∧
    ∀ r ∈ roots, ∀ a, leafAt m' r a =
      if r = root ∧ Vaddr.page a = Vaddr.page va then some (PageEntry.make page perms.flags)
      else leafAt m r a

/-- The bytes of a plain page are spared, too. -/
theorem byteAt_of_spares (spares : Spares roots m m') {page : UInt32} (plain : Plain roots m page)
    {j : Nat} (hj : j < 4096) : m'.ram.byteAt (page.toNat + j) = m.ram.byteAt (page.toNat + j) :=
  byteAt_of_words plain.ready.aligned (spares.word plain) (by omega) (by omega)

structure Fills (roots : Set UInt32) (piece : Bytes) (page : UInt32) (m m' : Memory) : Prop where
  isolated : Isolated roots m'
  same : SameTables roots m m'
  spares : Spares roots m m'
  fresh : ¬ Ready m page
  plain : Plain roots m' page
  byte : ∀ j < 4096, m'.ram.byteAt (page.toNat + j) = piece.getD j 0

/-- The words of the pages in use are as they were when a frame is taken and filled. -/
theorem word_of_filled (good : m.InOrder) (free : m.HasFrame) {piece : Bytes}
    (stored : store m.frames.next piece m.takeNext = .ok () m') {p i : UInt32} (taken : m.Taken p)
    (hi : i.toNat < 1024) : word m' p i = word m p i := by
  obtain ⟨keeps, -⟩ := keeps_takeNext good free
  have changes := ChangesOnly.of_store stored
  have below := taken.next
  rw [← keeps.word taken hi]
  refine word_congr taken.aligned hi fun a low high => ?_
  by_contra ne
  have := m.frames.next.toNat_lt
  have := (changes.bytes a (by rw [show UInt32.size = 4294967296 from rfl]; omega) ne).1
  omega

theorem Fills.of_done (h : Isolated roots m) (free : m.HasFrame) {piece : Bytes}
    (stored : store m.frames.next piece m.takeNext = .ok () m') :
    Fills roots piece m.frames.next m m' := by
  obtain ⟨keeps, fresh, ready, -⟩ := keeps_takeNext h.forest.good free
  obtain ⟨h₁, same₁⟩ := h.keeps keeps
  have changes := ChangesOnly.of_store stored
  -- all tables lie below the frame
  obtain ⟨h₂, same₂⟩ := h₁.of_changesOnly changes <| by
    rintro a inside ⟨table, isTable, inTable⟩
    have taken : m.Taken table := h.forest.ready_of_tablePage ((same₁.table table).1 isTable)
    have := taken.next
    unfold InPage at inTable
    omega
  have same := same₁.trans same₂
  refine ⟨h₂, same, ⟨fun hp => ?_, fun {p} hp table => ?_, fun {p} hp i hi => ?_⟩, fresh, ?_, ?_⟩
  · exact changes.taken (keeps.ready hp)
  · exact hp.noTable ((same.table p).1 table)
  · exact word_of_filled h.forest.good free stored hp.ready hi
  · refine ⟨changes.taken ready, fun table => fresh ?_⟩
    exact h.forest.ready_of_tablePage ((same.table _).1 table)
  · intro j hj
    have room := ready.limit
    have := m.takeNext.ram.limit.toNat_lt
    have small : m.frames.next.toNat + j < UInt32.size := by
      rw [show UInt32.size = 4294967296 from rfl]
      omega
    unfold Memory.store at stored
    obtain ⟨r, written, rfl⟩ := inRam_eq_ok.1 stored
    unfold Ram.store at written
    split at written
    swap
    · cases written
    cases written
    have cleared : m.takeNext.ram.byteAt (m.frames.next.toNat + j) = 0 :=
      (Ram.byteAt_clear _ _ _ small).trans (if_pos (by omega))
    rw [Ram.byteAt_write _ _ _ small]
    split
    · rw [Nat.add_sub_cancel_left]
    next short =>
      rw [List.getD_eq_default _ _ (by omega)]
      exact cleared

theorem LoadsPage.of_done (h : Isolated roots m) (hr : root ∈ roots) {piece : Bytes}
    {rest : List Bytes} (done : loadPieces root perms va (piece :: rest) m = .ok () m') :
    ∃ m₁, LoadsPage roots root va perms piece m m₁ ∧
      loadPieces root perms (va + 4096) rest m₁ = .ok () m' := by
  obtain ⟨page, m₁, taken, filling⟩ := Action.bind_eq_ok.1 done
  obtain ⟨⟨⟩, m₂, stored, mapping⟩ := Action.bind_eq_ok.1 filling
  obtain ⟨⟨⟩, m₃, mapped, others⟩ := Action.bind_eq_ok.1 mapping
  obtain ⟨free, rfl, rfl⟩ := takeFrames_one_eq_ok h.forest.good taken
  have fill := Fills.of_done h free stored
  unfold mapPage at mapped
  rw [Action.orElseFault_eq_ok] at mapped
  obtain ⟨hva, aligned, maps⟩ := fill.isolated.forest.maps_of_mapPage hr mapped
  have frame := PageEntry.frame_make aligned perms.flags_lt
  have spares := maps.spares hr
  have plain := spares.plain fill.plain
  have used : m₃.Taken m.frames.next := plain.ready
  refine ⟨m₃, ⟨?_, fill.spares.trans spares, used.next, hva, m.frames.next, plain, ?_, ?_⟩, others⟩
  · refine fill.isolated.maps maps fun _ => ?_
    rw [frame]
    refine ⟨fill.plain.ready, fill.plain.noTable, fun r hr' user => fill.fresh ?_⟩
    exact h.ready r hr' _ ((fill.same.user hr' _).1 user)
  · intro j hj
    rw [byteAt_of_spares spares fill.plain hj, fill.byte j hj]
  · intro r hr' a
    rw [maps.leaf r hr' a, fill.same.leaf r hr' a]

structure Loads (roots : Set UInt32) (root va : UInt32) (perms : Perms) (pieces : List Bytes)
    (m m' : Memory) : Prop where
  isolated : Isolated roots m'
  spares : Spares roots m m'
  next : m.frames.next.toNat + pieces.length * 4096 ≤ m'.frames.next.toNat
  other : ∀ r ∈ roots, ∀ a, ¬ (r = root ∧ Vaddr.InPages va pieces.length a) →
    leafAt m' r a = leafAt m r a
  page : ∀ a, Vaddr.InPages va pieces.length a → ∃ page piece,
    leafAt m' root a = some (PageEntry.make page perms.flags) ∧ Plain roots m' page ∧
      pieces[(a - va).toNat / 4096]? = some piece ∧
      ∀ j < 4096, m'.ram.byteAt (page.toNat + j) = piece.getD j 0

theorem Loads.of_done (h : Isolated roots m) (hr : root ∈ roots) {pieces : List Bytes}
    (done : loadPieces root perms va pieces m = .ok () m') :
    Loads roots root va perms pieces m m' := by
  induction pieces generalizing m va with
  | nil =>
    cases done
    refine ⟨h, .refl roots _, by simp, fun _ _ _ _ => rfl, fun a inside => ?_⟩
    exact absurd inside (Vaddr.not_inPages_zero va a)
  | cons piece rest ih =>
    obtain ⟨m₁, first, others⟩ := LoadsPage.of_done h hr done
    have later := ih first.isolated others
    obtain ⟨page, plain, bytes, leaf⟩ := first.page
    have next : m.frames.next.toNat + (rest.length + 1) * 4096 ≤ m'.frames.next.toNat := by
      have := first.next
      have := later.next
      omega
    have small : (rest.length + 1) * 4096 ≤ UInt32.size := by
      have := m'.frames.next.toNat_lt
      rw [show UInt32.size = 4294967296 from rfl]
      omega
    have split (a : UInt32) := Vaddr.inPages_succ (a := a) first.aligned small
    refine ⟨later.isolated, first.spares.trans later.spares, next, fun r hr' a outside => ?_,
      fun a inside => ?_⟩
    · rw [List.length_cons, split] at outside
      rw [later.other r hr' a fun inside => outside ⟨inside.1, .inr inside.2⟩, leaf r hr' a,
        if_neg fun inside => outside ⟨inside.1, .inl inside.2⟩]
    · rw [List.length_cons, split] at inside
      rcases inside with here | there
      · have apart := Vaddr.not_inPages_of_page first.aligned small here
        have near := (Vaddr.page_eq_iff_sub first.aligned).1 here
        refine ⟨page, piece, ?_, later.spares.plain plain, ?_, fun j hj => ?_⟩
        · rw [later.other root hr a fun inside => apart inside.2, leaf root hr a,
            if_pos ⟨rfl, here⟩]
        · rw [Nat.div_eq_of_lt near]
          rfl
        · rw [byteAt_of_spares later.spares plain hj, bytes j hj]
      · obtain ⟨page', piece', leaf', plain', found, bytes'⟩ := later.page a there
        refine ⟨page', piece', leaf', plain', ?_, bytes'⟩
        have far : ¬ (a - va).toNat < 4096 := by
          rw [← Vaddr.page_eq_iff_sub first.aligned]
          exact fun here => Vaddr.not_inPages_of_page first.aligned small here there
        rw [Vaddr.toNat_sub_next] at found
        have := (a - va).toNat_lt
        have index : (a - va).toNat / 4096 =
            ((a - va).toNat + 4294963200) % 4294967296 / 4096 + 1 := by omega
        rw [index, List.getElem?_cons_succ, found]

/-- An address of a loaded image leads to its byte of the image, or to a zero behind the image. -/
theorem Loads.byte {image : Bytes}
    (loads : Loads roots root va perms (Bytes.chunks 4095 image) m m') (hr : root ∈ roots)
    (aligned : Vaddr.aligned va = true) {a : UInt32}
    (inside : Vaddr.InPages va (pageCount image.length) a) :
    m'.leafFlags root a = .ok (some perms.flags) ∧ ∃ pa, m'.translate root a = .ok (some pa) ∧
      m'.ram.base.toNat ≤ pa.toNat ∧ pa.toNat < m'.ram.limit.toNat ∧
      m'.ram.byteAt pa.toNat = image.getD (a - va).toNat 0 := by
  have forest := loads.isolated.forest
  rw [pageCount, ← Bytes.length_chunks] at inside
  obtain ⟨page, piece, leaf, plain, found, bytes⟩ := loads.page a inside
  have taken : m'.Taken page := plain.ready
  have frame := PageEntry.frame_make taken.aligned perms.flags_lt
  have flags := forest.leafFlags_eq hr a
  have place := forest.translate_eq hr a
  rw [leaf, Option.map_some] at flags place
  rw [PageEntry.flags_make perms.flags_lt] at flags
  rw [frame] at place
  -- the offset in the page is that of the byte in the piece
  have offset : (Vaddr.offset a).toNat = (a - va).toNat % 4096 := by
    rw [Vaddr.aligned_iff] at aligned
    rw [Vaddr.toNat_offset, UInt32.toNat_sub]
    have := va.toNat_lt
    omega
  have address : (page + Vaddr.offset a).toNat = page.toNat + (a - va).toNat % 4096 := by
    have room := taken.limit
    have := m'.ram.limit.toNat_lt
    rw [UInt32.toNat_add, offset]
    omega
  refine ⟨flags, _, place, ?_, ?_, ?_⟩
  · have := taken.base
    omega
  · have := taken.limit
    omega
  · rw [address, bytes _ (by omega), Bytes.getElem?_chunks found]
    rw [List.getD_eq_getElem?_getD, List.getElem?_take_of_lt (by omega), List.getElem?_drop,
      List.getD_eq_getElem?_getD]
    congr 2
    omega

/-- The pages of a loaded image are read as the image and zeros up to the end of the last page. -/
theorem Loads.readUser {image : Bytes}
    (loads : Loads roots root va perms (Bytes.chunks 4095 image) m m') (hr : root ∈ roots)
    (aligned : Vaddr.aligned va = true) {buffer : Bytes}
    (length : buffer.length = pageCount image.length * 4096) :
    m'.readUser root va buffer =
      .ok (true, image ++ Bytes.zeros (buffer.length - image.length)) := by
  have small : pageCount image.length * 4096 < UInt32.size := by
    have next := loads.next
    have := m'.frames.next.toNat_lt
    rw [Bytes.length_chunks] at next
    rw [pageCount, show UInt32.size = 4294967296 from rfl]
    omega
  have index {i : Nat} (hi : i < buffer.length) : (va + UInt32.ofNat i - va).toNat = i := by
    rw [UInt32.add_comm, UInt32.add_sub_cancel]
    exact UInt32.toNat_ofNat_of_lt' (by omega)
  have byte {i : Nat} (hi : i < buffer.length) := by
    refine (loads.byte hr aligned (a := va + UInt32.ofNat i) ?_).2
    rw [Vaddr.InPages, index hi]
    omega
  have covers : image.length ≤ buffer.length := by
    rw [length, pageCount]
    omega
  have size : (image ++ Bytes.zeros (buffer.length - image.length)).length = buffer.length := by
    rw [List.length_append, Bytes.length_zeros, Nat.add_sub_cancel' covers]
  refine readUser_of_places size fun i hi => ?_
  obtain ⟨pa, place, low, high, value⟩ := byte (size ▸ hi)
  refine ⟨pa, place, ⟨low, high⟩, ?_⟩
  rw [value, index (size ▸ hi), ← Bytes.getD_append_zeros, List.getD_eq_getElem _ _ hi]

end PocketKernel.Memory
