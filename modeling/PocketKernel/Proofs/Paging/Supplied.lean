import Mathlib
import PocketKernel.Proofs.Paging.Forest

/-!
# A record of the supply

`Supplied` adds to a memory the list of tables that its supply has handed out. The page-table code
cannot tell the difference: `Erases` says that a computation with the record does what one without
it does, and is proved along the computation.
-/
namespace PocketKernel
open TableView TableMemory

/-- A memory and the tables that its supply has handed out, newest first. -/
structure Supplied (M : Type) where
  memory : M
  handed : List UInt32

namespace Supplied
variable {M : Type}

def lift {α : Type} (x : Action M α) : Action (Supplied M) α :=
  x.within memory fun m s => { s with memory := m }

instance [TableMemory M] : TableMemory (Supplied M) where
  loadWord s addr := loadWord s.memory addr
  storeWord addr value := lift (storeWord addr value)
  allocTable := do
    let table ← lift allocTable
    modify fun s => { s with handed := table :: s.handed }
    pure table

instance [TableView M] : TableView (Supplied M) where
  Good s := Good s.memory
  Ready s := Ready s.memory
  word s := word s.memory

theorem lift_of_ok {α : Type} {x : Action M α} {s : Supplied M} {m : M} {a : α}
    (h : x s.memory = .ok a m) : lift x s = .ok a { s with memory := m } :=
  Action.within_of_ok h

theorem lift_eq_ok {α : Type} {x : Action M α} {s t : Supplied M} {a : α} :
    lift x s = .ok a t ↔ ∃ m, x s.memory = .ok a m ∧ t = { s with memory := m } :=
  Action.within_eq_ok

instance [TableMemory M] [LawfulTableMemory M] : LawfulTableMemory (Supplied M) where
  aligned_of_ready h := LawfulTableMemory.aligned_of_ready (M := M) h
  loadWord_ready good ready hi := LawfulTableMemory.loadWord_ready (M := M) good ready hi
  storeWord_ready {s} _ _ value good ready hi := by
    obtain ⟨m, stored, stores⟩ := LawfulTableMemory.storeWord_ready (M := M) value good ready hi
    exact ⟨{ s with memory := m }, lift_of_ok stored, stores.good, stores.ready, stores.word⟩
  allocTable_good {s} good := by
    rcases LawfulTableMemory.allocTable_good (M := M) good with
      ⟨m, out, keeps⟩ | ⟨table, m, given, keeps, fresh, ready, zero⟩
    · exact .inl ⟨{ s with memory := m },
        Action.bind_of_error (Action.within_of_error out), keeps.good, keeps.ready, keeps.word⟩
    · exact .inr ⟨table, ⟨m, table :: s.handed⟩, Action.bind_of_ok (lift_of_ok given),
        ⟨keeps.good, keeps.ready, keeps.word⟩, fresh, ready, zero⟩

/-- With the record dropped, `x` does what `y` does. -/
def Erases {α : Type} (x : Action (Supplied M) α) (y : Action M α) : Prop :=
  ∀ s : Supplied M, (∃ a t, x s = .ok a t ∧ y s.memory = .ok a t.memory) ∨
    ∃ e t, x s = .error e t ∧ y s.memory = .error e t.memory

section Erases
variable {α β : Type}

theorem erases_pure (a : α) : Erases (pure a : Action (Supplied M) α) (pure a) :=
  fun s => .inl ⟨a, s, rfl, rfl⟩

theorem erases_throw (e : Fault) : Erases (throw e : Action (Supplied M) α) (throw e) :=
  fun s => .inr ⟨e, s, rfl, rfl⟩

theorem erases_bind {x : Action (Supplied M) α} {y : Action M α} (h : Erases x y)
    {f : α → Action (Supplied M) β} {g : α → Action M β} (hf : ∀ a, Erases (f a) (g a)) :
    Erases (x >>= f) (y >>= g) := by
  intro s
  rcases h s with ⟨a, t, hx, hy⟩ | ⟨e, t, hx, hy⟩
  · rw [Action.bind_of_ok hx, Action.bind_of_ok hy]
    exact hf a t
  · exact .inr ⟨e, t, Action.bind_of_error hx, Action.bind_of_error hy⟩

theorem erases_ask (question : M → Except Fault α) :
    Erases (Action.ask fun s => question s.memory) (Action.ask question) := by
  intro s
  cases h : question s.memory with
  | ok a => exact .inl ⟨a, s, Action.ask_of_ok h, Action.ask_of_ok h⟩
  | error e => exact .inr ⟨e, s, by simp only [Action.ask, h], by simp only [Action.ask, h]⟩

theorem erases_lift (x : Action M α) : Erases (lift x) x := by
  intro s
  cases h : x s.memory with
  | ok a m => exact .inl ⟨a, { s with memory := m }, lift_of_ok h, rfl⟩
  | error e m => exact .inr ⟨e, { s with memory := m }, Action.within_of_error h, rfl⟩

end Erases

section Paging
variable [TableMemory M] (root va pa : UInt32) (perms : Perms)

theorem erases_loadWord (addr : UInt32) :
    Erases (Action.ask (loadWord · addr) : Action (Supplied M) UInt32)
      (Action.ask (loadWord · addr)) :=
  erases_ask (loadWord · addr)

theorem erases_storeWord (addr value : UInt32) :
    Erases (storeWord addr value : Action (Supplied M) Unit) (storeWord addr value) :=
  erases_lift _

theorem erases_allocTable : Erases (allocTable : Action (Supplied M) UInt32) allocTable := by
  intro s
  rcases erases_lift (allocTable (M := M)) s with ⟨a, t, hx, hy⟩ | ⟨e, t, hx, hy⟩
  · exact .inl ⟨a, { t with handed := a :: t.handed }, Action.bind_of_ok hx, hy⟩
  · exact .inr ⟨e, t, Action.bind_of_error hx, hy⟩

theorem erases_directoryEntry :
    Erases (Paging.directoryEntry root va : Action (Supplied M) UInt32)
      (Paging.directoryEntry root va) := by
  unfold Paging.directoryEntry
  refine erases_bind (erases_loadWord _) ?_
  intro entry
  split
  · refine erases_bind erases_allocTable ?_
    intro table
    exact erases_bind (erases_storeWord _ _) fun _ => erases_pure _
  split
  · exact erases_throw _
  · exact erases_pure _

theorem erases_mapPage :
    Erases (Paging.mapPage root va pa perms : Action (Supplied M) Unit)
      (Paging.mapPage root va pa perms) := by
  by_cases hva : Vaddr.aligned va = true
  swap
  · rw [Paging.mapPage_of_unaligned_va hva, Paging.mapPage_of_unaligned_va hva]
    exact erases_throw _
  by_cases hpa : Vaddr.aligned pa = true
  swap
  · rw [Paging.mapPage_of_unaligned_pa hva hpa, Paging.mapPage_of_unaligned_pa hva hpa]
    exact erases_throw _
  rw [Paging.mapPage_of_aligned hva hpa, Paging.mapPage_of_aligned hva hpa]
  exact erases_bind (erases_directoryEntry root va) fun entry => erases_storeWord _ _

end Paging

section Handed
variable [TableMemory M]

theorem handed_storeWord {addr value : UInt32} {s t : Supplied M}
    (h : storeWord addr value s = .ok () t) : t.handed = s.handed := by
  have lifted : lift (storeWord addr value) s = .ok () t := h
  obtain ⟨m, -, rfl⟩ := lift_eq_ok.1 lifted
  rfl

theorem handed_allocTable {s t : Supplied M} {table : UInt32} (h : allocTable s = .ok table t) :
    t.handed = table :: s.handed := by
  obtain ⟨given, s₁, lifted, rest⟩ := Action.bind_eq_ok.1 h
  obtain ⟨m, -, rfl⟩ := lift_eq_ok.1 lifted
  cases rest
  rfl

theorem handed_of_refused {s t : Supplied M} {e : Fault} (h : allocTable s = .error e t) :
    t.handed = s.handed := by
  rcases Action.bind_eq_error.1 h with lifted | ⟨given, s₁, -, rest⟩
  · unfold lift Action.within at lifted
    cases allocated : (allocTable (M := M)) s.memory with
    | ok a m => rw [allocated] at lifted; cases lifted
    | error e m => rw [allocated] at lifted; cases lifted; rfl
  · cases rest

variable [LawfulTableMemory M] {roots : Set UInt32} {root va pa : UInt32} {perms : Perms}

/-- A directory entry that is missing costs one table. -/
theorem handed_directoryEntry {s t : Supplied M} {entry : UInt32} (h : Paging.Forest roots s)
    (hr : root ∈ roots) (found : Paging.directoryEntry root va s = .ok entry t) :
    t.handed = if Paging.Linked s root va then s.handed
      else PageEntry.frame entry :: s.handed := by
  rw [h.directoryEntry_eq hr va] at found
  split at found
  next linked =>
    cases found
    rw [if_pos linked]
  next missing =>
    rw [if_neg missing]
    rcases LawfulTableMemory.allocTable_good h.good with
      ⟨s₁, out, -⟩ | ⟨table, s₁, given, -, -, ready, -⟩
    · rw [Action.bind_of_error out] at found
      cases found
    · rw [Action.bind_of_ok given] at found
      obtain ⟨⟨⟩, s₂, stored, rest⟩ := Action.bind_eq_ok.1 found
      cases rest
      rw [handed_storeWord stored, handed_allocTable given,
        PageEntry.frame_link (LawfulTableMemory.aligned_of_ready ready)]

end Handed

end Supplied

end PocketKernel
