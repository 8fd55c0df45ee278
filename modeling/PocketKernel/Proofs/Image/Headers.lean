import Mathlib
import PocketKernel.Image.Headers
import PocketKernel.Proofs.Bytes
import PocketKernel.Proofs.Except

/-!
# Readers that report what is stored

A reader may refuse what it likes. All that is asked of one is that the program headers of a file
that it accepts are those that are stored there; then they are numbers of the width of their fields.
Main statements: `reportsStored_reader` and `sums_lt_of_bits32`.
-/
namespace PocketKernel
variable {file : Bytes}

/-- In every file that the reader accepts it finds the program headers as they are stored. -/
def ReportsStored (read : ProgramReader) : Prop :=
  ∀ file p, read file = .ok p → p.headers = storedHeaders file

namespace ProgramFile

theorem mapM_readHeader_eq_ok {c : ElfClass} {order : ByteOrder} {slots : List Bytes}
    {headers : List ProgramHeader} (done : slots.mapM (readHeader c order) = .ok headers) :
    headers = slots.map (c.header order) := by
  replace done := Except.mapM_eq_ok.1 done
  induction done with
  | nil => rfl
  | cons first _ ih =>
    obtain ⟨-, -, same⟩ := Except.bind_eq_ok.1 first
    cases same
    rw [List.map_cons, ← ih]

theorem readHeaders_eq_ok {c : ElfClass} {order : ByteOrder} {count offset : Nat}
    {headers : List ProgramHeader} (done : readHeaders c order file count offset = .ok headers) :
    headers = (Bytes.slots c.programSize count (file.drop offset)).map (c.header order) := by
  unfold readHeaders at done
  split at done
  · cases done
  · exact mapM_readHeader_eq_ok done

theorem headers_of_parse {p : ProgramFile} (parsed : parse file = .ok p) :
    p.headers = storedHeaders file := by
  unfold parse at parsed
  obtain ⟨-, parsed⟩ := Except.ite_throw_eq_ok.1 parsed
  obtain ⟨-, parsed⟩ := Except.ite_throw_eq_ok.1 parsed
  obtain ⟨-, -, parsed⟩ := Except.bind_eq_ok.1 parsed
  obtain ⟨-, -, parsed⟩ := Except.bind_eq_ok.1 parsed
  obtain ⟨-, -, parsed⟩ := Except.bind_eq_ok.1 parsed
  obtain ⟨-, parsed⟩ := Except.ite_throw_eq_ok.1 parsed
  obtain ⟨headers, read, parsed⟩ := Except.bind_eq_ok.1 parsed
  cases parsed
  exact readHeaders_eq_ok read

theorem reportsStored_reader : ReportsStored reader :=
  fun _ _ accepted => headers_of_parse (Except.mapError_eq_ok.1 accepted)

end ProgramFile

theorem ElfField.read_lt (f : ElfField) (order : ByteOrder) (bytes : Bytes) :
    f.read order bytes < 256 ^ f.width := by
  have number (xs : Bytes) : order.number xs < 256 ^ xs.length := by
    cases order with
    | little => exact Bytes.leNat_lt xs
    | big => simpa [ByteOrder.number, Bytes.beNat] using Bytes.leNat_lt xs.reverse
  refine (number _).trans_le (Nat.pow_le_pow_right (by decide) ?_)
  exact List.length_take_le _ _

/-- The numbers of a 32-bit file are so small that the sums of them are 64-bit words. -/
theorem sums_lt_of_bits32 (width : file.getD 4 0 = 1) : ∀ h ∈ storedHeaders file,
    h.fileOffset + h.fileSize < UInt64.size ∧ h.vaddr + h.memSize < UInt64.size := by
  intro h hh
  rw [storedHeaders, ElfClass.ofFile, if_pos width, ElfClass.headers] at hh
  obtain ⟨slot, -, rfl⟩ := List.mem_map.1 hh
  have field (f : ElfField) (narrow : f.width = 4) :
      f.read (.ofFile file) slot < 2 ^ 32 := by
    simpa [narrow] using f.read_lt (.ofFile file) slot
  have := field ElfClass.bits32.fileOffset rfl
  have := field ElfClass.bits32.fileSize rfl
  have := field ElfClass.bits32.vaddr rfl
  have := field ElfClass.bits32.memSize rfl
  have : UInt64.size = 2 ^ 64 := rfl
  simp only [ElfClass.header]
  omega

end PocketKernel
