import Mathlib.Logic.Basic

/-!
# What is reached from the roots of a collection

A tracing collector starts from roots and follows references. `Reaches refersTo root a` says that
it comes to `a`. What it does not come to is freed, so that anything may be there afterwards.
`Reaches.of_closed`: what holds of the roots, and is passed on along references, holds of all that
is reached.
-/

/-- One comes to `a` from an element with property `root` by following `refersTo`. -/
inductive Reaches {α : Type*} (refersTo : α → α → Prop) (root : α → Prop) : α → Prop
  | root {a : α} (h : root a) : Reaches refersTo root a
  | step {a b : α} (h : Reaches refersTo root a) (hab : refersTo a b) : Reaches refersTo root b

namespace Reaches

variable {α : Type*} {refersTo : α → α → Prop} {root p : α → Prop} {a : α}

theorem of_closed (hroot : ∀ r, root r → p r) (hclosed : ∀ a b, p a → refersTo a b → p b)
    (h : Reaches refersTo root a) : p a := by
  induction h with
  | root hr => exact hroot _ hr
  | step _ hab ih => exact hclosed _ _ ih hab

end Reaches
