import PocketKernel.Memory.Space
import PocketKernel.Proofs.Action
import PocketKernel.Proofs.Paging.Walk

/-!
# Where memory begins

No operation moves the window of addresses that exist. Said here of its lower end and of the
operations that build address spaces.
-/
namespace PocketKernel.Memory
open TableMemory
variable {base : UInt32}

def Begins (base : UInt32) (m : Memory) : Prop := m.ram.base = base

theorem inRam_preserves {α : Type} {x : Action Ram α}
    (h : x.Preserves fun r => r.base = base) : (inRam x).Preserves (Begins base) := by
  intro m begins
  cases ran : x m.ram with
  | ok a r =>
    rw [Action.finalState, inRam, Action.within_of_ok ran]
    exact h.of_ok ran begins
  | error e r =>
    rw [Action.finalState, inRam, Action.within_of_error ran]
    exact h.of_error ran begins

theorem ramStore_preserves (addr : UInt32) (data : Bytes) :
    (Ram.store addr data).Preserves fun r => r.base = base := by
  intro r begins
  by_cases hold : r.holds addr data.length = true
  · rw [Action.finalState, Ram.store, if_pos hold]
    exact begins
  · rw [Action.finalState, Ram.store, if_neg hold]
    exact begins

theorem ramZero_preserves (addr : UInt32) (n : Nat) :
    (Ram.zero addr n).Preserves fun r => r.base = base := by
  intro r begins
  by_cases hold : r.holds addr n = true
  · rw [Action.finalState, Ram.zero, if_pos hold]
    exact begins
  · rw [Action.finalState, Ram.zero, if_neg hold]
    exact begins

theorem store_preserves (addr : UInt32) (data : Bytes) :
    (store addr data).Preserves (Begins base) :=
  inRam_preserves (ramStore_preserves addr data)

theorem storeWord_preserves (addr word : UInt32) :
    (storeWord addr word : Action Memory Unit).Preserves (Begins base) :=
  inRam_preserves (ramStore_preserves addr _)

theorem takeFrames_preserves (count : Nat) (none : Fault) :
    (takeFrames count none).Preserves (Begins base) := by
  refine Action.preserves_bind Action.preserves_get ?_
  intro m
  cases m.frames.alloc count with
  | none => exact Action.preserves_throw _
  | some given =>
    refine Action.preserves_bind (Action.preserves_modify fun _ begins => begins) ?_
    intro _
    exact Action.preserves_bind (inRam_preserves (ramZero_preserves _ _)) fun _ =>
      Action.preserves_pure _

theorem mapPage_preserves (root va pa : UInt32) (perms : Perms) :
    (mapPage root va pa perms).Preserves (Begins base) :=
  Action.preserves_orElseFault
    (Paging.mapPage_preserves storeWord_preserves (takeFrames_preserves _ _) _ _ _ _) _

theorem identityMap_preserves (root start length : UInt32) (perms : Perms) :
    (identityMap root start length perms).Preserves (Begins base) :=
  Action.preserves_orElseFault
    (Paging.mapPages_preserves storeWord_preserves (takeFrames_preserves _ _) _ _ _ _ _) _

theorem loadPieces_preserves (root : UInt32) (perms : Perms) (va : UInt32) (pieces : List Bytes) :
    (loadPieces root perms va pieces).Preserves (Begins base) := by
  induction pieces generalizing va with
  | nil => exact Action.preserves_pure _
  | cons piece rest ih =>
    refine Action.preserves_bind (takeFrames_preserves _ _) ?_
    intro page
    refine Action.preserves_bind (store_preserves _ _) ?_
    intro _
    exact Action.preserves_bind (mapPage_preserves _ _ _ _) fun _ => ih _

end PocketKernel.Memory
