import Mathlib
import PocketKernel.Memory.User
import PocketKernel.Proofs.Memory.Isolation
import PocketKernel.Proofs.Memory.Words

/-!
# Copies and the tables

A copy to user memory goes piece by piece, and each piece is written where the tables send it at
that moment, so that a copy may well change the tables it is guided by. In the memory of separate
processes it does not, provided that the range has no page that is mapped but not for user code:
then the whole copy stays in the bytes of user code (`Isolated.changesOnly_of_steps`).
-/
namespace PocketKernel.Memory
open Paging
variable {m m' : Memory} {root va : UInt32} {n : Nat} {a : Nat}

def RangeByte (m : Memory) (root va : UInt32) (n a : Nat) : Prop :=
  ∃ i < n, ∃ pa, m.translate root (va + UInt32.ofNat i) = .ok (some pa) ∧ pa.toNat = a

/-- What is mapped of `n` addresses from `va` on is mapped for user code. -/
def UserRange (m : Memory) (root va : UInt32) (n : Nat) : Prop :=
  ∀ i < n, ∀ flags, m.leafFlags root (va + UInt32.ofNat i) = .ok (some flags) →
    PageEntry.forUser flags = true

instance : Decidable (UserRange m root va n) :=
  decidable_of_iff (∀ i < n, (match m.leafFlags root (va + UInt32.ofNat i) with
      | .ok (some flags) => PageEntry.forUser flags
      | _ => true) = true) <| by
    refine forall₂_congr ?_
    intro i _
    rcases m.leafFlags root (va + UInt32.ofNat i) with fault | _ | flags <;> simp

theorem userRange_congr (same : ∀ va, leaf? m' root va = leaf? m root va) :
    UserRange m' root va n ↔ UserRange m root va n := by
  simp only [UserRange, Memory.leafFlags, Paging.leafFlags, same]

theorem add_ofNat_add (va : UInt32) (i j : Nat) :
    va + UInt32.ofNat i + UInt32.ofNat j = va + UInt32.ofNat (i + j) := by
  rw [UInt32.ofNat_add, UInt32.add_assoc]

theorem UserRange.userByte (range : UserRange m root va n) (inside : RangeByte m root va n a) :
    UserByte m root a := by
  obtain ⟨i, hi, pa, place, rfl⟩ := inside
  obtain ⟨leaf, found, -⟩ := translate_eq_some.1 place
  have flags := leafFlags_eq_some.2 ⟨leaf, found, rfl⟩
  exact ⟨_, _, pa, flags, range i hi _ flags, place, rfl⟩

/-- The bytes behind the front of a range. -/
theorem RangeByte.front {k : Nat} (h : RangeByte m root va k a) (le : k ≤ n) :
    RangeByte m root va n a := by
  obtain ⟨i, hi, found⟩ := h
  exact ⟨i, hi.trans_le le, found⟩

/-- The bytes behind the rest of a range. -/
theorem RangeByte.rest {k : Nat} (h : RangeByte m root (va + UInt32.ofNat k) (n - k) a) :
    RangeByte m root va n a := by
  obtain ⟨i, hi, found⟩ := h
  rw [add_ofNat_add] at found
  exact ⟨k + i, by omega, found⟩

/-- Behind the place to which an address leads come those of the addresses up to the end of its
page. -/
theorem translate_in_page {pa : UInt32} (found : m.translate root va = .ok (some pa)) {j : Nat}
    (hj : j < pageRest va) :
    ∃ pa', m.translate root (va + UInt32.ofNat j) = .ok (some pa') ∧ pa'.toNat = pa.toNat + j := by
  unfold pageRest at hj
  exact translate_add found (by omega)

/-- With its first and its last byte a piece of a page exists. -/
theorem has_in_page {pa : UInt32} (found : m.translate root va = .ok (some pa)) (pos : 0 < n)
    (inPage : n ≤ pageRest va) (first : m.ram.base.toNat ≤ pa.toNat)
    (last : ∀ pa', m.translate root (va + UInt32.ofNat (n - 1)) = .ok (some pa') →
      pa'.toNat < m.ram.limit.toNat) : m.ram.Has pa.toNat n := by
  obtain ⟨pa', place, address⟩ := translate_in_page found (j := n - 1) (by omega)
  have below := last pa' place
  exact ⟨first, by omega⟩

/-- The bytes from the translation of an address up to the end of its page. -/
theorem rangeByte_of_translate {pa : UInt32} (found : m.translate root va = .ok (some pa))
    (inPage : n ≤ pageRest va) (from_le : pa.toNat ≤ a) (lt : a < pa.toNat + n) :
    RangeByte m root va n a := by
  obtain ⟨pa', place, address⟩ := translate_in_page found (j := a - pa.toNat) (by omega)
  exact ⟨a - pa.toNat, by omega, pa', place, by omega⟩

def CopyStep (root va : UInt32) (n : Nat) (m m' : Memory) : Prop :=
  ChangesOnly (RangeByte m root va n) m m'

/-- A copy writes where the tables send it, step by step. -/
theorem steps_of_writeUser (m : Memory) (root va : UInt32) (data : Bytes) :
    Relation.ReflTransGen (CopyStep root va data.length) m
      ((writeUser root va data).finalState m) := by
  unfold writeUser
  fun_induction userPieces va data generalizing m with
  | case1 va => exact .refl
  | case2 va data _ ih =>
    rw [writePieces]
    rcases found : m.translate root va with fault | _ | pa
    · have asked : Action.ask (translate · root va) m = .error fault m := Action.ask_of_error found
      rw [Action.finalState_bind_of_error asked]
    · have asked : Action.ask (translate · root va) m = .ok none m := Action.ask_of_ok found
      rw [Action.finalState_bind_of_ok asked]
      exact .refl
    have asked : Action.ask (translate · root va) m = .ok (some pa) m := Action.ask_of_ok found
    rw [Action.finalState_bind_of_ok asked]
    dsimp only
    rcases stored : store pa (data.take (pageRest va)) m with ⟨⟨⟩, m₁⟩ | ⟨fault, m₁⟩
    · rw [Action.finalState_bind_of_ok stored]
      have first : CopyStep root va data.length m m₁ := by
        refine (ChangesOnly.of_store stored).mono ?_
        intro a inside
        have piece := rangeByte_of_translate found (List.length_take_le _ _) inside.1 inside.2
        exact piece.front (List.length_take_le' _ _)
      refine .head first ((ih m₁).lift id fun m m' step => step.mono fun a inside => ?_)
      rw [List.length_drop] at inside
      exact inside.rest
    · rw [Action.finalState_bind_of_error stored, store_eq_error stored]

theorem load_eq_ok {addr : UInt32} {data : Bytes} (loaded : m.load addr n = .ok data) :
    data.length = n ∧ ∀ (i : Nat) (h : i < data.length),
      data[i] = m.ram.byteAt (addr.toNat + i) := by
  unfold Memory.load Ram.load at loaded
  split at loaded
  · cases loaded
    exact ⟨m.ram.length_bytes _ _, m.ram.getElem_bytes _ _⟩
  · cases loaded

/-- What a copy from user memory answers, given that the whole range is mapped. -/
theorem readUser_eq_ok {buffer data : Bytes} (done : m.readUser root va buffer = .ok (true, data)) :
    data.length = buffer.length ∧ ∀ (i : Nat) (h : i < data.length),
      ∃ pa, m.translate root (va + UInt32.ofNat i) = .ok (some pa) ∧
        data[i] = m.ram.byteAt pa.toNat := by
  unfold readUser at done
  fun_induction userPieces va buffer generalizing data with
  | case1 va =>
    cases done
    refine ⟨rfl, ?_⟩
    intro i hi
    cases hi
  | case2 va buffer _ ih =>
    rw [readPieces] at done
    rcases found : m.translate root va with fault | _ | pa
    · rw [found] at done
      cases done
    · rw [found] at done
      cases done
    rw [found] at done
    dsimp only [bind, Except.bind] at done
    rcases loaded : m.load pa (buffer.take (pageRest va)).length with fault | got
    · rw [loaded] at done
      cases done
    rcases rest : m.readPieces root (userPieces (va + UInt32.ofNat (pageRest va))
      (buffer.drop (pageRest va))) with fault | ⟨mapped, others⟩
    · rw [loaded, rest] at done
      cases done
    rw [loaded, rest] at done
    simp only [pure, Except.pure, Except.ok.injEq, Prod.mk.injEq] at done
    obtain ⟨rfl, rfl⟩ := done
    obtain ⟨length, places⟩ := ih rest
    obtain ⟨size, bytes⟩ := load_eq_ok loaded
    rw [List.length_drop] at length
    rw [List.length_take] at size
    refine ⟨by rw [List.length_append, size, length]; omega, fun i hi => ?_⟩
    by_cases here : i < got.length
    · obtain ⟨pa', place, address⟩ := translate_in_page found (j := i) (by omega)
      refine ⟨pa', place, ?_⟩
      rw [List.getElem_append_left here, bytes i here, address]
    · rw [List.length_append] at hi
      have full : got.length = pageRest va := by omega
      obtain ⟨pa', place, byte⟩ := places (i - got.length) (by omega)
      rw [add_ofNat_add, show pageRest va + (i - got.length) = i by omega] at place
      refine ⟨pa', place, ?_⟩
      rw [List.getElem_append_right (by omega), byte]

end PocketKernel.Memory

namespace PocketKernel.Paging.Isolated
open Memory
variable {roots : Set UInt32} {m : Memory} {root va : UInt32}

/-- Steps of a copy to a range of user code stay in its bytes, so that all tables stay. -/
theorem changesOnly_of_steps (h : Isolated roots m) (hr : root ∈ roots) {n : Nat} {m' : Memory}
    (range : UserRange m root va n) (steps : Relation.ReflTransGen (CopyStep root va n) m m') :
    ChangesOnly (UserByte m root) m m' ∧ Isolated roots m' ∧ SameTables roots m m' := by
  induction steps with
  | refl => exact ⟨.refl _ m, h, .refl roots m⟩
  | @tail m₁ m₂ _ step ih =>
    obtain ⟨changes, isolated, same⟩ := ih
    have walks := isolated.leaf?_of_sameTables h same hr
    have inside : ∀ a, RangeByte m₁ root va n a → UserByte m₁ root a :=
      fun a => ((userRange_congr walks).2 range).userByte
    obtain ⟨isolated', same'⟩ := isolated.of_changesOnly step fun a there =>
      isolated.not_tableByte hr (inside a there)
    refine ⟨changes.trans (step.mono fun a there => ?_), isolated', same.trans same'⟩
    exact (userByte_congr walks).1 (inside a there)

end PocketKernel.Paging.Isolated
