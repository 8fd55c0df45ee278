import Mathlib
import PocketKernel.Paging.WordMemory
import PocketKernel.Proofs.Action
import PocketKernel.Proofs.Paging.Entry

/-!
# Memories for page tables

A `TableView` shows a memory as pages of 1024 words. `LawfulTableMemory` is what the page-table code
relies on: pages that are in use are read and written word by word, and the supply hands out aligned
pages of zeros that are not in use, or runs out.
-/
namespace PocketKernel

class TableView (M : Type) where
  /-- The supply is in order. -/
  Good : M → Prop
  /-- The page is in use, so that the supply will not hand it out. -/
  Ready : M → (page : UInt32) → Prop
  word : M → (page index : UInt32) → UInt32

namespace TableView
variable {M : Type} [TableView M]

structure Keeps (m m' : M) : Prop where
  good : Good m'
  ready : ∀ {page}, Ready m page → Ready m' page
  word : ∀ {page index}, Ready m page → index.toNat < 1024 →
    TableView.word m' page index = TableView.word m page index

theorem Keeps.refl {m : M} (good : Good m) : Keeps m m := ⟨good, id, fun _ _ => rfl⟩

structure Stores (page index value : UInt32) (m m' : M) : Prop where
  good : Good m'
  ready : ∀ {p}, Ready m' p ↔ Ready m p
  word : ∀ {p i}, Ready m p → i.toNat < 1024 →
    TableView.word m' p i = if p = page ∧ i = index then value else TableView.word m p i

end TableView

open TableView TableMemory

/-- A memory that keeps what the page-table code relies on. -/
class LawfulTableMemory (M : Type) [TableMemory M] extends TableView M where
  aligned_of_ready {m : M} {page : UInt32} : Ready m page → Vaddr.aligned page = true
  loadWord_ready {m : M} {page index : UInt32} : Good m → Ready m page → index.toNat < 1024 →
    loadWord m (page + index * 4) = .ok (word m page index)
  storeWord_ready {m : M} {page index : UInt32} (value : UInt32) : Good m → Ready m page →
    index.toNat < 1024 →
    ∃ m', storeWord (page + index * 4) value m = .ok () m' ∧ Stores page index value m m'
  allocTable_good {m : M} : Good m →
    (∃ m', allocTable m = .error (.refused .outOfFrames) m' ∧ Keeps m m') ∨
      ∃ table m', allocTable m = .ok table m' ∧ Keeps m m' ∧ ¬ Ready m table ∧ Ready m' table ∧
        ∀ index : UInt32, index.toNat < 1024 → word m' table index = 0

/-! ## The sparse memory -/

namespace WordMemory

structure Stocked (m : WordMemory) : Prop where
  nodup : m.frames.Nodup
  aligned : ∀ f ∈ m.frames, Vaddr.aligned f = true
  zero : ∀ f ∈ m.frames, ∀ index : UInt32, index.toNat < 1024 → m.read (f + index * 4) = 0

instance : TableView WordMemory where
  Good := Stocked
  Ready m page := Vaddr.aligned page = true ∧ page ∉ m.frames
  word m page index := m.read (page + index * 4)

theorem read_ofFrames (frames : List UInt32) (addr : UInt32) : (ofFrames frames).read addr = 0 :=
  Std.TreeMap.getD_emptyc

theorem stocked_ofFrames {frames : List UInt32} (nodup : frames.Nodup)
    (aligned : ∀ f ∈ frames, Vaddr.aligned f = true) : (ofFrames frames).Stocked :=
  ⟨nodup, aligned, fun _ _ _ _ => read_ofFrames frames _⟩

theorem stores_write {m : WordMemory} (good : m.Stocked) {page index : UInt32} (value : UInt32)
    (ready : Ready m page) (hi : index.toNat < 1024) :
    Stores page index value m (m.write (page + index * 4) value) := by
  obtain ⟨aligned, used⟩ := ready
  refine ⟨⟨good.nodup, good.aligned, fun f hf i h => ?_⟩, .rfl, fun {p i} hp h => ?_⟩
  · have apart : page + index * 4 ≠ f + i * 4 := by
      rw [ne_eq, wordAddr_inj aligned (good.aligned f hf) hi h]
      rintro ⟨rfl, -⟩
      exact used hf
    rw [read_write, if_neg apart]
    exact good.zero f hf i h
  · change (m.write (page + index * 4) value).read (p + i * 4) = _
    rw [read_write]
    simp only [wordAddr_inj aligned hp.1 hi h, eq_comm (a := page), eq_comm (a := index)]
    rfl

/-- The supply gives the next frame, if there is one. -/
theorem allocTable_eq (m : WordMemory) :
    allocTable m =
      match m.frames with
      | [] => .error (.refused .outOfFrames) m
      | frame :: rest => .ok frame { m with frames := rest } := by
  obtain ⟨words, frames⟩ := m
  cases frames <;> rfl

instance : LawfulTableMemory WordMemory where
  aligned_of_ready h := h.1
  loadWord_ready _ _ _ := rfl
  storeWord_ready value good ready hi := ⟨_, rfl, stores_write good value ready hi⟩
  allocTable_good {m} good := by
    rw [allocTable_eq]
    cases frames : m.frames with
    | nil => exact .inl ⟨m, rfl, good, id, fun _ _ => rfl⟩
    | cons frame rest =>
      have nodup := good.nodup
      have aligned := good.aligned
      have zero := good.zero
      rw [frames] at nodup aligned zero
      obtain ⟨fresh, nodup⟩ := List.nodup_cons.1 nodup
      refine .inr ⟨frame, { m with frames := rest }, rfl, ⟨?_, ?_, fun _ _ => rfl⟩, ?_, ?_, ?_⟩
      · exact ⟨nodup, fun f hf => aligned f (List.mem_cons_of_mem _ hf),
          fun f hf => zero f (List.mem_cons_of_mem _ hf)⟩
      · rintro page ⟨ha, used⟩
        rw [frames, List.mem_cons, not_or] at used
        exact ⟨ha, used.2⟩
      · rintro ⟨-, used⟩
        exact used (frames ▸ List.mem_cons_self)
      · exact ⟨aligned frame List.mem_cons_self, fresh⟩
      · exact zero frame List.mem_cons_self

end WordMemory

end PocketKernel
