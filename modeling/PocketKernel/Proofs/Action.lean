import Mathlib
import PocketKernel.Fault

/-!
# Computations that may stop

How a computation runs is read off its parts: `bind_of_ok` steps over a part that answers, and
`bind_eq_ok` and `bind_eq_error` take a finished computation apart. `Preserves` says that what holds
before a computation holds after it, also when it stopped with a fault, and is proved part by part.
-/
namespace PocketKernel.Action
variable {State Part α β γ : Type}

theorem bind_of_ok {x : Action State α} {f : α → Action State β} {s t : State} {a : α}
    (h : x s = .ok a t) : (x >>= f) s = f a t := by
  change EStateM.bind x f s = _
  simp only [EStateM.bind, h]

theorem bind_of_error {x : Action State α} {f : α → Action State β} {s t : State} {e : Fault}
    (h : x s = .error e t) : (x >>= f) s = .error e t := by
  change EStateM.bind x f s = _
  simp only [EStateM.bind, h]

/-- A computation has one outcome. -/
theorem eq_of_ok {x : Action State α} {s t u : State} {a b : α} (h : x s = .ok a t)
    (h' : x s = .ok b u) : a = b ∧ t = u := EStateM.Result.ok.inj (h.symm.trans h')

theorem pure_eq_ok {a b : α} {s t : State} :
    (pure a : Action State α) s = .ok b t ↔ a = b ∧ s = t := by
  change EStateM.Result.ok a s = .ok b t ↔ _
  rw [EStateM.Result.ok.injEq]

theorem get_bind (f : State → Action State β) (s : State) :
    ((get : Action State State) >>= f) s = f s s := rfl

theorem modify_bind (g : State → State) (f : Unit → Action State β) (s : State) :
    ((modify g : Action State Unit) >>= f) s = f () (g s) := rfl

theorem bind_eq_ok {x : Action State α} {f : α → Action State β} {s t : State} {b : β} :
    (x >>= f) s = .ok b t ↔ ∃ a u, x s = .ok a u ∧ f a u = .ok b t := by
  cases h : x s with
  | ok a u => rw [bind_of_ok h]; simp
  | error e u => rw [bind_of_error h]; simp

theorem bind_eq_error {x : Action State α} {f : α → Action State β} {s t : State} {e : Fault} :
    (x >>= f) s = .error e t ↔
      x s = .error e t ∨ ∃ a u, x s = .ok a u ∧ f a u = .error e t := by
  cases h : x s with
  | ok a u => rw [bind_of_ok h]; simp
  | error e' u => rw [bind_of_error h]; simp

/-- The state matters through the first part only. -/
theorem bind_congr_state {x : Action State α} {f : α → Action State β} {s t : State}
    (h : x s = x t) : (x >>= f) s = (x >>= f) t := by
  change EStateM.bind x f s = EStateM.bind x f t
  simp only [EStateM.bind, h]

theorem within_of_ok {view : State → Part} {put : Part → State → State} {x : Action Part α}
    {s : State} {a : α} {p : Part} (h : x (view s) = .ok a p) :
    within view put x s = .ok a (put p s) := by
  simp only [within, h]

theorem within_of_error {view : State → Part} {put : Part → State → State} {x : Action Part α}
    {s : State} {e : Fault} {p : Part} (h : x (view s) = .error e p) :
    within view put x s = .error e (put p s) := by
  simp only [within, h]

theorem within_eq_ok {view : State → Part} {put : Part → State → State} {x : Action Part α}
    {s t : State} {a : α} :
    within view put x s = .ok a t ↔ ∃ p, x (view s) = .ok a p ∧ t = put p s := by
  cases h : x (view s) with
  | ok a p => rw [within_of_ok h]; simp [eq_comm, and_comm]
  | error e p => rw [within_of_error h]; simp

theorem orElseFault_eq_ok {x : Action State α} {rename : MapError → Fault} {s t : State} {a : α} :
    x.orElseFault rename s = .ok a t ↔ x s = .ok a t := by
  unfold orElseFault
  split
  next cause u stopped => rw [stopped]; simp
  next => rfl

theorem finalState_of_ok {x : Action State α} {s t : State} {a : α} (h : x s = .ok a t) :
    x.finalState s = t := by
  rw [finalState, h]

theorem finalState_of_error {x : Action State α} {s t : State} {e : Fault} (h : x s = .error e t) :
    x.finalState s = t := by
  rw [finalState, h]

theorem finalState_within (view : State → Part) (put : Part → State → State) (x : Action Part α)
    (s : State) : (within view put x).finalState s = put (x.finalState (view s)) s := by
  cases h : x (view s) with
  | ok a p => rw [finalState_of_ok h, finalState_of_ok (within_of_ok h)]
  | error e p => rw [finalState_of_error h, finalState_of_error (within_of_error h)]

theorem finalState_bind_of_ok {x : Action State α} {f : α → Action State β} {s t : State} {a : α}
    (h : x s = .ok a t) : (x >>= f).finalState s = (f a).finalState t := by
  rw [finalState, bind_of_ok h, finalState]

theorem finalState_bind_of_error {x : Action State α} {f : α → Action State β} {s t : State}
    {e : Fault} (h : x s = .error e t) : (x >>= f).finalState s = t := by
  rw [finalState, bind_of_error h]

theorem finalState_get_bind (f : State → Action State β) (s : State) :
    ((get : Action State State) >>= f).finalState s = (f s).finalState s := rfl

theorem finalState_modify_bind (g : State → State) (f : Unit → Action State β) (s : State) :
    ((modify g : Action State Unit) >>= f).finalState s = (f ()).finalState (g s) := rfl

/-- A fault under another name leaves the same state. -/
theorem finalState_orElseFault (x : Action State α) (rename : MapError → Fault) (s : State) :
    (x.orElseFault rename).finalState s = x.finalState s := by
  rw [finalState, finalState, orElseFault]
  cases x s with
  | ok a t => rfl
  | error e t => cases e <;> rfl

/-- What is made of an answer does not matter to the state. -/
theorem finalState_bind_pure (x : Action State α) (f : α → β) (s : State) :
    (do return f (← x) : Action State β).finalState s = x.finalState s := by
  cases h : x s with
  | ok a t => rw [finalState_bind_of_ok h, finalState_of_ok h]; rfl
  | error e t => rw [finalState_bind_of_error h, finalState_of_error h]

theorem ask_of_ok {question : State → Except Fault α} {s : State} {a : α}
    (h : question s = .ok a) : ask question s = .ok a s := by
  simp only [ask, h]

theorem ask_of_error {question : State → Except Fault α} {s : State} {e : Fault}
    (h : question s = .error e) : ask question s = .error e s := by
  simp only [ask, h]

def answers (x : Action State α) (s : State) : Bool :=
  match x s with
  | .ok _ _ => true
  | .error _ _ => false

theorem exists_ok_of_answers {x : Action State α} {s : State} (h : x.answers s = true) :
    ∃ a, x s = .ok a (x.finalState s) := by
  unfold answers at h
  cases ran : x s with
  | ok a t => exact ⟨a, by rw [finalState, ran]⟩
  | error e t => simp [ran] at h

def answersWith (test : α → Bool) (x : Action State α) (s : State) : Bool :=
  match x s with
  | .ok a _ => test a
  | .error _ _ => false

theorem exists_ok_of_answersWith {test : α → Bool} {x : Action State α} {s : State}
    (h : x.answersWith test s = true) : ∃ a, x s = .ok a (x.finalState s) ∧ test a = true := by
  unfold answersWith at h
  cases ran : x s with
  | ok a t =>
    rw [ran] at h
    exact ⟨a, by rw [finalState, ran], h⟩
  | error e t => simp [ran] at h

/-! ## What a computation preserves -/

/-- What holds before `x` holds after it, also when `x` stops with a fault. -/
def Preserves (x : Action State α) (P : State → Prop) : Prop := ∀ s, P s → P (x.finalState s)

section Preserves
variable {P : State → Prop}

theorem Preserves.of_ok {x : Action State α} {s t : State} {a : α} (h : x.Preserves P)
    (ok : x s = .ok a t) (hs : P s) : P t := by
  simpa only [finalState, ok] using h s hs

theorem Preserves.of_error {x : Action State α} {s t : State} {e : Fault} (h : x.Preserves P)
    (stopped : x s = .error e t) (hs : P s) : P t := by
  simpa only [finalState, stopped] using h s hs

theorem preserves_pure (a : α) : Preserves (pure a : Action State α) P := fun _ h => h

theorem preserves_throw (e : Fault) : Preserves (throw e : Action State α) P := fun _ h => h

theorem preserves_get : Preserves (get : Action State State) P := fun _ h => h

theorem preserves_modify {f : State → State} (h : ∀ s, P s → P (f s)) :
    Preserves (modify f : Action State Unit) P := h

theorem preserves_ask (question : State → Except Fault α) : Preserves (ask question) P := by
  intro s hs
  cases h : question s <;> simpa [finalState, ask, h] using hs

theorem preserves_bind {x : Action State α} {f : α → Action State β} (hx : x.Preserves P)
    (hf : ∀ a, (f a).Preserves P) : (x >>= f).Preserves P := by
  intro s hs
  cases h : x s with
  | ok a t =>
    rw [finalState, bind_of_ok h]
    exact hf a t (hx.of_ok h hs)
  | error e t =>
    rw [finalState, bind_of_error h]
    exact hx.of_error h hs

/-- What is thrown is not followed by anything. -/
theorem preserves_throw_bind (e : Fault) (f : α → Action State β) :
    (throw e >>= f : Action State β).Preserves P := fun _ h => h

theorem preserves_orElseFault {x : Action State α} (h : x.Preserves P) (rename : MapError → Fault) :
    (x.orElseFault rename).Preserves P := by
  intro s hs
  rw [finalState_orElseFault]
  exact h s hs

theorem preserves_within {part : State → Part} {put : Part → State → State} (x : Action Part α)
    (h : ∀ p s, P s → P (put p s)) : (within part put x).Preserves P := by
  intro s hs
  rw [finalState_within]
  exact h _ s hs

end Preserves

end PocketKernel.Action
