import Mathlib
import PocketKernel.Proofs.Memory.Bounds
import PocketKernel.Proofs.Memory.Loading

/-!
# Free frames that do not exist

The free frames of a memory may be said to reach beyond its end, to begin before it or not to begin
at a page. None of this survives a run that was done: a frame must exist to be cleared and must be
aligned to be mapped. Main statements: where an address space was built and an image loaded, the
free frames were in order up to the end of memory (`inOrder_capped`), and with the free frames
ending there the same is built and loaded (`space_of_done`).
-/
namespace PocketKernel

namespace Action
variable {State α β : Type} {f : State → State}

/-- What `x` answers, it also answers from the states that `f` makes. -/
def Carries (x : Action State α) (f : State → State) : Prop :=
  ∀ s a t, x s = .ok a t → x (f s) = .ok a (f t)

theorem carries_pure (a : α) : (pure a : Action State α).Carries f := by
  rintro s _ _ ⟨⟩
  rfl

theorem carries_throw (e : Fault) : (throw e : Action State α).Carries f := nofun

theorem carries_ask {question : State → Except Fault α} (same : ∀ s, question (f s) = question s) :
    (ask question).Carries f := by
  intro s a t asked
  simp only [ask, same] at asked ⊢
  split at asked
  · cases asked
    rfl
  · cases asked

theorem carries_bind {x : Action State α} {g : α → Action State β} (hx : x.Carries f)
    (hg : ∀ a, (g a).Carries f) : (x >>= g).Carries f := by
  intro s b t done
  obtain ⟨a, u, first, second⟩ := bind_eq_ok.1 done
  rw [bind_of_ok (hx s a u first)]
  exact hg a u b t second

theorem carries_throw_bind (e : Fault) (g : α → Action State β) :
    (throw e >>= g : Action State β).Carries f := nofun

theorem carries_orElseFault {x : Action State α} (h : x.Carries f) (rename : MapError → Fault) :
    (x.orElseFault rename).Carries f := by
  intro s a t done
  rw [orElseFault_eq_ok] at done ⊢
  exact h s a t done

end Action

namespace Paging
open TableMemory

section Carries
variable {M : Type} [TableMemory M] {f : M → M}
  (hload : ∀ m addr, loadWord (f m) addr = loadWord m addr)
  (hstore : ∀ addr word, (storeWord addr word : Action M Unit).Carries f)
  (halloc : (allocTable : Action M UInt32).Carries f)
include hload hstore halloc

theorem directoryEntry_carries (root va : UInt32) :
    (directoryEntry root va : Action M UInt32).Carries f := by
  refine Action.carries_bind (Action.carries_ask fun m => hload m _) ?_
  intro entry
  dsimp only
  split
  · refine Action.carries_bind halloc ?_
    intro table
    exact Action.carries_bind (hstore _ _) fun _ => Action.carries_pure _
  split
  · exact Action.carries_throw _
  · exact Action.carries_pure _

theorem mapPage_carries (root va pa : UInt32) (perms : Perms) :
    (mapPage root va pa perms : Action M Unit).Carries f := by
  unfold mapPage
  dsimp only
  split
  · exact Action.carries_throw_bind _ _
  split
  · exact Action.carries_throw_bind _ _
  · refine Action.carries_bind (directoryEntry_carries hload hstore halloc root va) ?_
    exact fun _ => hstore _ _

theorem mapPages_carries (root : UInt32) (perms : Perms) (count : Nat) (va pa : UInt32) :
    (mapPages root perms count va pa : Action M Unit).Carries f := by
  induction count generalizing va pa with
  | zero => exact Action.carries_pure _
  | succ count ih =>
    refine Action.carries_bind (mapPage_carries hload hstore halloc root va pa perms) ?_
    exact fun _ => ih _ _

end Carries

/-- Only an aligned frame is mapped. -/
theorem aligned_of_mapPage {M : Type} [TableMemory M] {m m' : M} {root va pa : UInt32}
    {perms : Perms} (mapped : mapPage root va pa perms m = .ok () m') :
    Vaddr.aligned pa = true := by
  by_contra unaligned
  by_cases aligned : Vaddr.aligned va = true
  · rw [mapPage_of_unaligned_pa aligned unaligned] at mapped
    cases mapped
  · rw [mapPage_of_unaligned_va aligned] at mapped
    cases mapped

end Paging

namespace Memory
open TableMemory

def capped (m : Memory) : Memory :=
  { m with frames := { m.frames with
      limit := if m.ram.limit ≤ m.frames.limit then m.ram.limit else m.frames.limit } }

theorem inRam_carries {α : Type} {x : Action Ram α}
    (h : ∀ r a r', x r = .ok a r' → r'.limit = r.limit) : (inRam x).Carries capped := by
  intro m a m' done
  obtain ⟨r, ran, rfl⟩ := inRam_eq_ok.1 done
  rw [inRam_of_ok (m := m.capped) ran, capped, capped]
  simp only [h _ _ _ ran]

theorem store_carries (addr : UInt32) (data : Bytes) : (store addr data).Carries capped := by
  refine inRam_carries fun r a r' done => ?_
  unfold Ram.store at done
  split at done <;> cases done
  rfl

def takeMany (m : Memory) (count : Nat) : Memory :=
  ⟨m.ram.clear m.frames.next.toNat (count * 4096),
    { m.frames with next := UInt32.ofNat (m.frames.next.toNat + count * 4096) }⟩

structure HasFrames (m : Memory) (count : Nat) : Prop where
  small : m.frames.next.toNat + count * 4096 < UInt32.size
  room : m.frames.next.toNat + count * 4096 ≤ m.frames.limit.toNat
  base : m.ram.base.toNat ≤ m.frames.next.toNat
  limit : m.frames.next.toNat + count * 4096 ≤ m.ram.limit.toNat

theorem takeFrames_eq_ok {m m' : Memory} {count : Nat} {none : Fault} {page : UInt32} :
    takeFrames count none m = .ok page m' ↔
      m.HasFrames count ∧ page = m.frames.next ∧ m' = m.takeMany count := by
  unfold takeFrames
  rw [Action.get_bind, Frames.alloc]
  by_cases room : m.frames.next.toNat + count * 4096 < UInt32.size ∧
      m.frames.next.toNat + count * 4096 ≤ m.frames.limit.toNat
  swap
  · rw [if_neg room]
    exact ⟨nofun, fun h => absurd ⟨h.1.small, h.1.room⟩ room⟩
  rw [if_pos room]
  dsimp only
  rw [Action.modify_bind]
  by_cases hold : m.ram.holds m.frames.next (count * pageSize) = true
  · obtain ⟨base, limit⟩ := (Ram.holds_iff ..).1 hold
    have cleared : inRam (Ram.zero m.frames.next (count * pageSize))
        ⟨m.ram, { m.frames with next := UInt32.ofNat (m.frames.next.toNat + count * 4096) }⟩ =
          .ok () (m.takeMany count) :=
      inRam_of_ok (if_pos hold)
    rw [Action.bind_of_ok cleared]
    constructor
    · rintro ⟨⟩
      exact ⟨⟨room.1, room.2, base, limit⟩, rfl, rfl⟩
    · rintro ⟨-, rfl, rfl⟩
      rfl
  · have stopped : inRam (Ram.zero m.frames.next (count * pageSize))
        ⟨m.ram, { m.frames with next := UInt32.ofNat (m.frames.next.toNat + count * 4096) }⟩ =
          .error _ _ :=
      Action.within_of_error (if_neg hold)
    rw [Action.bind_of_error stopped]
    exact ⟨nofun, fun h => absurd ((Ram.holds_iff ..).2 ⟨h.1.base, h.1.limit⟩) hold⟩

theorem takeFrames_carries (count : Nat) (none : Fault) :
    (takeFrames count none).Carries capped := by
  intro m a m' done
  obtain ⟨free, rfl, rfl⟩ := takeFrames_eq_ok.1 done
  refine takeFrames_eq_ok.2 ⟨⟨free.small, ?_, free.base, free.limit⟩, rfl, rfl⟩
  unfold capped
  dsimp only
  split
  · exact free.limit
  · exact free.room

theorem storeWord_carries (addr word : UInt32) :
    (storeWord addr word : Action Memory Unit).Carries capped :=
  store_carries addr _

theorem loadWord_capped (m : Memory) (addr : UInt32) :
    loadWord m.capped addr = loadWord m addr := rfl

theorem mapPage_carries (root va pa : UInt32) (perms : Perms) :
    (mapPage root va pa perms).Carries capped :=
  Action.carries_orElseFault (Paging.mapPage_carries loadWord_capped storeWord_carries
    (takeFrames_carries _ _) _ _ _ _) _

theorem identityMap_carries (root start length : UInt32) (perms : Perms) :
    (identityMap root start length perms).Carries capped :=
  Action.carries_orElseFault (Paging.mapPages_carries loadWord_capped storeWord_carries
    (takeFrames_carries _ _) _ _ _ _ _) _

theorem loadPieces_carries (root : UInt32) (perms : Perms) (va : UInt32) (pieces : List Bytes) :
    (loadPieces root perms va pieces).Carries capped := by
  induction pieces generalizing va with
  | nil => exact Action.carries_pure _
  | cons piece rest ih =>
    refine Action.carries_bind (takeFrames_carries _ _) ?_
    intro page
    refine Action.carries_bind (store_carries _ _) ?_
    intro _
    exact Action.carries_bind (mapPage_carries _ _ _ _) fun _ => ih _

/-! ## Where the free frames begin -/

def Offset (n : Nat) (m : Memory) : Prop := m.frames.next.toNat % 4096 = n

theorem offset_takeFrames {n : Nat} (count : Nat) (none : Fault) :
    (takeFrames count none).Preserves (Offset n) := by
  intro m begins
  unfold takeFrames
  rw [Action.finalState_get_bind]
  cases given : m.frames.alloc count with
  | none => exact begins
  | some got =>
    obtain ⟨addr, frames⟩ := got
    unfold Frames.alloc at given
    dsimp only at given
    split at given
    next room =>
      cases given
      have later : Offset n ⟨m.ram, { m.frames with
          next := UInt32.ofNat (m.frames.next.toNat + count * 4096) }⟩ := by
        unfold Offset at begins ⊢
        rw [UInt32.toNat_ofNat_of_lt' room.1]
        omega
      have clearing : (do
          inRam (Ram.zero m.frames.next (count * pageSize))
          pure m.frames.next : Action Memory UInt32).Preserves (Offset n) :=
        Action.preserves_bind (Action.preserves_within _ fun _ _ h => h) fun _ =>
          Action.preserves_pure _
      exact clearing _ later
    next => cases given

theorem offset_storeWord {n : Nat} (addr word : UInt32) :
    (storeWord addr word : Action Memory Unit).Preserves (Offset n) :=
  Action.preserves_within _ fun _ _ h => h

theorem offset_mapPage {n : Nat} (root va pa : UInt32) (perms : Perms) :
    (mapPage root va pa perms).Preserves (Offset n) :=
  Action.preserves_orElseFault
    (Paging.mapPage_preserves offset_storeWord (offset_takeFrames _ _) _ _ _ _) _

theorem offset_identityMap {n : Nat} (root start length : UInt32) (perms : Perms) :
    (identityMap root start length perms).Preserves (Offset n) :=
  Action.preserves_orElseFault
    (Paging.mapPages_preserves offset_storeWord (offset_takeFrames _ _) _ _ _ _ _) _

/-! ## New address spaces -/

section Done
variable {m m₁ m₂ : Memory} {root start length device va : UInt32} {perms : Perms} {piece : Bytes}
  {rest : List Bytes}
  (built : (do
    let root ← allocPages 1
    identityMap root start length .kernelRwx
    mapPage root device device .kernelRw
    pure root : Action Memory UInt32) m = .ok root m₁)
  (loaded : loadPieces root perms va (piece :: rest) m₁ = .ok () m₂)
include built

/-- Building an address space leaves the free frames at their offset. -/
theorem offset_of_built : Offset (m.frames.next.toNat % 4096) m₁ := by
  refine Action.Preserves.of_ok ?_ built rfl
  refine Action.preserves_bind (offset_takeFrames _ _) ?_
  intro root
  refine Action.preserves_bind (offset_identityMap _ _ _ _) ?_
  intro _
  exact Action.preserves_bind (offset_mapPage _ _ _ _) fun _ => Action.preserves_pure _

include loaded

/-- A frame was mapped for the image, so the free frames were aligned, and one was cleared for the
root, so they were in memory. -/
theorem inOrder_capped : m.capped.InOrder := by
  obtain ⟨page, m₁', taken, -⟩ := Action.bind_eq_ok.1 built
  obtain ⟨free, -⟩ := takeFrames_eq_ok.1 taken
  refine ⟨?_, free.base, ?_⟩
  · obtain ⟨page, m₃, given, filling⟩ := Action.bind_eq_ok.1 loaded
    obtain ⟨⟨⟩, m₄, -, mapping⟩ := Action.bind_eq_ok.1 filling
    obtain ⟨⟨⟩, m₅, mapped, -⟩ := Action.bind_eq_ok.1 mapping
    obtain ⟨-, rfl, -⟩ := takeFrames_eq_ok.1 given
    unfold mapPage at mapped
    rw [Action.orElseFault_eq_ok] at mapped
    have aligned := Paging.aligned_of_mapPage mapped
    exact (offset_of_built built).symm.trans (Vaddr.aligned_iff.1 aligned)
  · unfold capped
    dsimp only
    split
    · exact le_rfl
    next above =>
      have below := UInt32.not_le.1 above
      exact (UInt32.lt_iff_toNat_lt.1 below).le

theorem isolated_capped : Paging.Isolated ∅ m.capped where
  forest := ⟨inOrder_capped built loaded, nofun, nofun, nofun⟩
  ready := nofun
  noTable := nofun
  once := nofun

/-- What was built and loaded in any memory is what is built and loaded in a memory in order. -/
theorem space_of_done : Builds ∅ root start length device m.capped m₁.capped ∧
    Loads {root} root va perms (piece :: rest) m₁.capped m₂.capped := by
  have again : (do
      let root ← allocPages 1
      identityMap root start length .kernelRwx
      mapPage root device device .kernelRw
      pure root : Action Memory UInt32).Carries capped := by
    refine Action.carries_bind (takeFrames_carries _ _) ?_
    intro root
    refine Action.carries_bind (identityMap_carries _ _ _ _) ?_
    intro _
    exact Action.carries_bind (mapPage_carries _ _ _ _) fun _ => Action.carries_pure _
  have builds := Builds.of_done (isolated_capped built loaded) (again _ _ _ built)
  have isolated := builds.isolated
  rw [LawfulSingleton.insert_empty_eq] at isolated
  exact ⟨builds, Loads.of_done isolated (Set.mem_singleton _)
    (loadPieces_carries _ _ _ _ _ _ _ loaded)⟩

end Done

end Memory

end PocketKernel
