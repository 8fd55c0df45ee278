import Mathlib
import PocketKernel.Proofs.Memory.Tables
import PocketKernel.Proofs.Paging.Isolation
import PocketKernel.Proofs.Paging.Walk

/-!
# Memory of separate processes

In memory each process has the bytes of its own pages. What changes only such bytes changes no table
(`Isolated.of_changesOnly`).
-/
namespace PocketKernel.Memory
open Paging TableView TableMemory

def InPage (a : Nat) (page : UInt32) : Prop := page.toNat ≤ a ∧ a < page.toNat + 4096

/-- Aligned pages overlap only when they are the same. -/
theorem eq_of_inPage {a : Nat} {p q : UInt32} (hp : Vaddr.aligned p = true)
    (hq : Vaddr.aligned q = true) (inP : InPage a p) (inQ : InPage a q) : p = q := by
  rw [Vaddr.aligned_iff] at hp hq
  unfold InPage at inP inQ
  rw [← UInt32.toNat_inj]
  omega

/-- User code reaches the byte through the tables at the root. -/
def UserByte (m : Memory) (root : UInt32) (a : Nat) : Prop :=
  ∃ va flags pa, m.leafFlags root va = .ok (some flags) ∧ PageEntry.forUser flags = true ∧
    m.translate root va = .ok (some pa) ∧ pa.toNat = a

theorem userByte_congr {m m' : Memory} {root : UInt32} {a : Nat}
    (same : ∀ va, leaf? m' root va = leaf? m root va) :
    UserByte m' root a ↔ UserByte m root a := by
  simp only [UserByte, Memory.leafFlags, Memory.translate, Paging.leafFlags, Paging.translate, same]

def TableByte (roots : Set UInt32) (m : Memory) (a : Nat) : Prop :=
  ∃ page, TablePage roots m page ∧ InPage a page

/-- The memories differ at most in bytes with `P`. -/
structure ChangesOnly (P : Nat → Prop) (m m' : Memory) : Prop where
  frames : m'.frames = m.frames
  base : m'.ram.base = m.ram.base
  limit : m'.ram.limit = m.ram.limit
  bytes : ∀ a < UInt32.size, m'.ram.byteAt a ≠ m.ram.byteAt a → P a

/-- A store that faults changes nothing. -/
theorem store_eq_error {m m' : Memory} {addr : UInt32} {data : Bytes} {fault : Fault}
    (failed : store addr data m = .error fault m') : m' = m := by
  unfold Memory.store inRam Action.within Ram.store at failed
  by_cases hold : m.ram.holds addr data.length = true
  · rw [if_pos hold] at failed
    cases failed
  · rw [if_neg hold] at failed
    cases failed
    rfl

namespace ChangesOnly
variable {P Q : Nat → Prop} {m m' m'' : Memory}

theorem refl (P : Nat → Prop) (m : Memory) : ChangesOnly P m m :=
  ⟨rfl, rfl, rfl, fun _ _ changed => absurd rfl changed⟩

theorem trans (h : ChangesOnly P m m') (h' : ChangesOnly P m' m'') : ChangesOnly P m m'' := by
  refine ⟨h'.frames.trans h.frames, h'.base.trans h.base, h'.limit.trans h.limit, fun a ha ne => ?_⟩
  by_cases first : m'.ram.byteAt a = m.ram.byteAt a
  · exact h'.bytes a ha (first ▸ ne)
  · exact h.bytes a ha first

theorem mono (h : ChangesOnly P m m') (imp : ∀ a, P a → Q a) : ChangesOnly Q m m' :=
  ⟨h.frames, h.base, h.limit, fun a ha ne => imp a (h.bytes a ha ne)⟩

theorem taken (h : ChangesOnly P m m') {page : UInt32} (hp : m.Taken page) : m'.Taken page := by
  refine ⟨hp.aligned, ?_, ?_, ?_⟩
  · rw [h.base]
    exact hp.base
  · rw [h.limit]
    exact hp.limit
  · rw [h.frames]
    exact hp.next

theorem inOrder (h : ChangesOnly P m m') (good : m.InOrder) : m'.InOrder := by
  refine ⟨?_, ?_, ?_⟩
  · rw [h.frames]
    exact good.aligned
  · rw [h.base, h.frames]
    exact good.base
  · rw [h.limit, h.frames]
    exact good.limit

/-- Storing bytes changes only the range they are stored in. -/
theorem of_store {addr : UInt32} {data : Bytes} (done : store addr data m = .ok () m') :
    ChangesOnly (fun a => addr.toNat ≤ a ∧ a < addr.toNat + data.length) m m' := by
  unfold Memory.store at done
  obtain ⟨r, stored, rfl⟩ := inRam_eq_ok.1 done
  unfold Ram.store at stored
  split at stored
  swap
  · cases stored
  cases stored
  refine ⟨rfl, rfl, rfl, fun a ha ne => ?_⟩
  by_contra outside
  refine ne (Ram.byteAt_write_of_outside _ ?_ ha)
  omega

end ChangesOnly

end PocketKernel.Memory

namespace PocketKernel.Paging.Isolated
open Memory TableView TableMemory
variable {roots : Set UInt32} {m m' : Memory}

theorem aligned_of_userPage (h : Isolated roots m) {root page : UInt32} (hr : root ∈ roots)
    (user : UserPage m root page) : Vaddr.aligned page = true :=
  (h.ready root hr page user).aligned

theorem leaf?_eq_some (h : Isolated roots m) {root va leaf : UInt32} (hr : root ∈ roots) :
    leaf? m root va = .ok (some leaf) ↔ leafAt m root va = some leaf := by
  rw [h.forest.leaf?_eq hr, Except.ok.injEq]

theorem leaf?_of_sameTables (h' : Isolated roots m') (h : Isolated roots m)
    (same : SameTables roots m m') {root : UInt32} (hr : root ∈ roots) (va : UInt32) :
    leaf? m' root va = leaf? m root va := by
  rw [h'.forest.leaf?_eq hr, h.forest.leaf?_eq hr, same.leaf root hr va]

/-- The bytes of user code are those of its pages. -/
theorem userByte_iff (h : Isolated roots m) {root : UInt32} (hr : root ∈ roots) {a : Nat} :
    UserByte m root a ↔ ∃ page, UserPage m root page ∧ InPage a page := by
  constructor
  · rintro ⟨va, flags, pa, found, user, place, rfl⟩
    obtain ⟨leaf, there, rfl⟩ := leafFlags_eq_some.1 found
    obtain ⟨leaf', there', rfl⟩ := translate_eq_some.1 place
    cases there.symm.trans there'
    rw [PageEntry.forUser_flags] at user
    refine ⟨_, ⟨va, leaf, (h.leaf?_eq_some hr).1 there, user, rfl⟩, ?_⟩
    have small : (Vaddr.offset va).toNat < 4096 := Nat.mod_lt _ (by decide)
    rw [InPage, PageEntry.toNat_frame_add small]
    omega
  · rintro ⟨page, ⟨va, leaf, there, user, rfl⟩, inPage⟩
    have found : leaf? m root (Vaddr.start va) = .ok (some leaf) :=
      (leaf?_congr (Vaddr.page_start va)).trans ((h.leaf?_eq_some hr).2 there)
    unfold InPage at inPage
    have first := Vaddr.toNat_start va
    have inside : (Vaddr.start va).toNat % 4096 + (a - (PageEntry.frame leaf).toNat) < 4096 := by
      omega
    obtain ⟨pa, place, address⟩ := translate_add (translate_eq_some.2 ⟨leaf, found, rfl⟩) inside
    have flags := (leaf?_congr (Vaddr.page_add inside)).trans found
    refine ⟨_, _, pa, leafFlags_eq_some.2 ⟨leaf, flags, rfl⟩, ?_, place, ?_⟩
    · rwa [PageEntry.forUser_flags]
    · rw [address, Vaddr.offset_start, UInt32.add_zero]
      omega

theorem not_tableByte (h : Isolated roots m) {root : UInt32} (hr : root ∈ roots) {a : Nat}
    (user : UserByte m root a) : ¬ TableByte roots m a := by
  rintro ⟨table, isTable, inTable⟩
  obtain ⟨page, isUser, inUser⟩ := (h.userByte_iff hr).1 user
  have same := eq_of_inPage (h.aligned_of_userPage hr isUser)
    (h.forest.ready_of_tablePage isTable).aligned inUser inTable
  exact h.noTable root hr page isUser (same ▸ isTable)

/-- A byte is that of one process. -/
theorem eq_of_userByte (h : Isolated roots m) {r r' : UInt32} (hr : r ∈ roots) (hr' : r' ∈ roots)
    {a : Nat} (user : UserByte m r a) (user' : UserByte m r' a) : r = r' := by
  obtain ⟨page, isUser, inUser⟩ := (h.userByte_iff hr).1 user
  obtain ⟨page', isUser', inUser'⟩ := (h.userByte_iff hr').1 user'
  obtain rfl := eq_of_inPage (h.aligned_of_userPage hr isUser)
    (h.aligned_of_userPage hr' isUser') inUser inUser'
  exact h.apart hr hr' isUser isUser'

/-- Changes outside the tables change no mapping. -/
theorem of_changesOnly (h : Isolated roots m) {P : Nat → Prop} (changes : ChangesOnly P m m')
    (outside : ∀ a, P a → ¬ TableByte roots m a) :
    Isolated roots m' ∧ SameTables roots m m' := by
  refine h.of_tables (changes.inOrder h.forest.good) changes.taken ?_
  intro p table i hi
  have taken : m.Taken p := h.forest.ready_of_tablePage table
  have aligned := Vaddr.aligned_iff.1 taken.aligned
  refine word_congr taken.aligned hi ?_
  intro a ha ha'
  by_contra ne
  have := p.toNat_lt
  have small : a < UInt32.size := by
    rw [show UInt32.size = 4294967296 from rfl]
    omega
  exact outside a (changes.bytes a small ne) ⟨p, table, ha, ha'⟩

end PocketKernel.Paging.Isolated
