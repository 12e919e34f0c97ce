/-!
# What computations answer

A property of answers that goes from one step of a computation to the next, whatever state or faults
the computation has besides.
-/

namespace ComponentRegistry

/-- A way to say of computations what their answers are like, which goes from one step to the
next. -/
structure Assurance (m : Type → Type) [Monad m] where
  Gives : {α : Type} → (α → Prop) → m α → Prop
  pure : ∀ {α : Type} {Q : α → Prop} {a : α}, Q a → Gives Q (Pure.pure a)
  bind : ∀ {α β : Type} {Q : α → Prop} {R : β → Prop} {x : m α} {f : α → m β},
    Gives Q x → (∀ a, Q a → Gives R (f a)) → Gives R (x >>= f)

namespace Assurance

/-- What is computed at once is as it is. -/
def plain : Assurance Id where
  Gives Q x := Q x
  pure h := h
  bind h h' := h' _ h

/-- What is yielded, from whatever state, if there is no fault. -/
def yields (σ ε : Type) : Assurance (StateT σ (Except ε)) where
  Gives Q x := ∀ s a s', x.run s = .ok (a, s') → Q a
  pure h _ _ _ hrun := by
    cases hrun
    exact h
  bind {_ _ _ _ x _} h h' s b s' hrun := by
    rw [StateT.run_bind] at hrun
    cases hx : x.run s with
    | error e => rw [hx] at hrun; cases hrun
    | ok y =>
      rw [hx] at hrun
      exact h' y.1 (h s y.1 y.2 hx) y.2 b s' hrun

end Assurance

end ComponentRegistry
