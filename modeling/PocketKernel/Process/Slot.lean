/-!
# Slots

There are eight slots for processes. `PerSlot` keeps a value for each of them, and `value_put` says
what it means to replace one.
-/
namespace PocketKernel

abbrev slotCount : Nat := 8

abbrev Slot := Fin 8

/-- A value for every slot. -/
abbrev PerSlot (α : Type) := Vector α 8

namespace PerSlot
variable {α : Type}

def value (v : PerSlot α) (slot : Slot) : α := v[slot]

/-- The values with that of a slot replaced. -/
def put (v : PerSlot α) (slot : Slot) (a : α) : PerSlot α := v.set slot a

theorem value_put (v : PerSlot α) (slot other : Slot) (a : α) :
    (v.put slot a).value other = if slot = other then a else v.value other := by
  simp [value, put, Vector.getElem_set, Fin.ext_iff]

end PerSlot

end PocketKernel
