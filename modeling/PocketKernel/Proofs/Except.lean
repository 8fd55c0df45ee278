import Mathlib

/-!
# Computations that end with a result or an error

How a sequence of computations ends, from how its parts end.
-/
namespace PocketKernel.Except
variable {ε ε' α β : Type} {x : Except ε α} {f : α → Except ε β}

theorem bind_eq_ok {b : β} : (x >>= f) = .ok b ↔ ∃ a, x = .ok a ∧ f a = .ok b := by
  cases x <;> simp [bind, Except.bind]

theorem bind_eq_error {e : ε} :
    (x >>= f) = .error e ↔ x = .error e ∨ ∃ a, x = .ok a ∧ f a = .error e := by
  cases x <;> simp [bind, Except.bind]

theorem mapError_eq_ok {g : ε → ε'} {a : α} : x.mapError g = .ok a ↔ x = .ok a := by
  cases x <;> simp [Except.mapError]

theorem mapError_eq_error {g : ε → ε'} {e : ε'} :
    x.mapError g = .error e ↔ ∃ cause, x = .error cause ∧ g cause = e := by
  cases x <;> simp [Except.mapError]

theorem ite_throw_eq_ok {c : Prop} [Decidable c] {e : ε} {f : Unit → Except ε β} {b : β} :
    (if c then throw e >>= f else f ()) = .ok b ↔ ¬ c ∧ f () = .ok b := by
  split
  next refused => exact ⟨nofun, fun h => absurd refused h.1⟩
  next passed => exact ⟨fun done => ⟨passed, done⟩, And.right⟩

theorem mapM_eq_ok {xs : List α} {ys : List β} :
    xs.mapM f = .ok ys ↔ List.Forall₂ (fun a b => f a = .ok b) xs ys := by
  induction xs generalizing ys with
  | nil => simp [pure, Except.pure, eq_comm]
  | cons a rest ih =>
    rw [List.mapM_cons, bind_eq_ok, List.forall₂_cons_left_iff]
    simp only [bind_eq_ok, ih, pure, Except.pure, Except.ok.injEq]
    constructor
    · rintro ⟨b, first, bs, others, rfl⟩
      exact ⟨b, bs, first, others, rfl⟩
    · rintro ⟨b, bs, first, others, rfl⟩
      exact ⟨b, first, bs, others, rfl⟩

theorem exists_mapM_eq_ok {xs : List α} :
    (∃ ys, xs.mapM f = .ok ys) ↔ ∀ a ∈ xs, ∃ b, f a = .ok b := by
  induction xs with
  | nil => simp [pure, Except.pure]
  | cons a rest ih =>
    rw [List.forall_mem_cons, ← ih]
    simp only [mapM_eq_ok, List.forall₂_cons_left_iff]
    constructor
    · rintro ⟨_, b, bs, first, others, rfl⟩
      exact ⟨⟨b, first⟩, bs, others⟩
    · rintro ⟨⟨b, first⟩, bs, others⟩
      exact ⟨b :: bs, b, bs, first, others, rfl⟩

/-- The first element that fails decides. -/
theorem mapM_eq_error {xs : List α} {e : ε} : xs.mapM f = .error e ↔
    ∃ earlier a later, xs = earlier ++ a :: later ∧ (∀ c ∈ earlier, ∃ b, f c = .ok b) ∧
      f a = .error e := by
  induction xs with
  | nil => simp [pure, Except.pure]
  | cons a rest ih =>
    rw [List.mapM_cons, bind_eq_error]
    simp only [bind_eq_error, ih]
    constructor
    · rintro (failed | ⟨b, first, ⟨earlier, c, later, rfl, taken, failed⟩ | ⟨_, _, done⟩⟩)
      · exact ⟨[], a, rest, rfl, nofun, failed⟩
      · exact ⟨a :: earlier, c, later, rfl, List.forall_mem_cons.2 ⟨⟨b, first⟩, taken⟩, failed⟩
      · cases done
    · rintro ⟨_ | ⟨c, earlier⟩, d, later, split, taken, failed⟩ <;> cases split
      · exact .inl failed
      · obtain ⟨⟨b, first⟩, taken⟩ := List.forall_mem_cons.1 taken
        exact .inr ⟨b, first, .inl ⟨earlier, d, later, rfl, taken, failed⟩⟩

end PocketKernel.Except
