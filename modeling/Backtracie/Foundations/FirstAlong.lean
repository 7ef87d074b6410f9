import Mathlib.Logic.Basic

/-!
# The first element along a chain

Objects that point at one another are searched by following a pointer until an element with some
property is met. `FirstAlong next p a b` says that this search, from `a` on, meets `b` first:

* `FirstAlong.unique`: there is only one such element;
* `FirstAlong.step_iff`: an element without the property is passed over;
* `FirstAlong.skip`: elements that lack a weaker property are passed over together.
-/

/-- Of `a`, `next a`, `next (next a)`, … the first element with property `p` is `b`. -/
inductive FirstAlong {α : Type*} (next : α → α) (p : α → Prop) : α → α → Prop
  | here {a : α} (h : p a) : FirstAlong next p a a
  | step {a b : α} (hp : ¬p a) (h : FirstAlong next p (next a) b) : FirstAlong next p a b

namespace FirstAlong

variable {α : Type*} {next : α → α} {p q : α → Prop} {a b c : α}

theorem holds (h : FirstAlong next p a b) : p b := by
  induction h with
  | here h => exact h
  | step _ _ ih => exact ih

theorem eq_of_holds (h : FirstAlong next p a b) (hp : p a) : b = a := by
  cases h with
  | here _ => rfl
  | step hnp _ => exact absurd hp hnp

theorem next_of_not (h : FirstAlong next p a b) (hp : ¬p a) : FirstAlong next p (next a) b := by
  cases h with
  | here h => exact absurd h hp
  | step _ h => exact h

theorem step_iff (hp : ¬p a) : FirstAlong next p a b ↔ FirstAlong next p (next a) b :=
  ⟨fun h => h.next_of_not hp, .step hp⟩

theorem unique (h : FirstAlong next p a b) (h' : FirstAlong next p a c) : b = c := by
  induction h with
  | here hp => exact (h'.eq_of_holds hp).symm
  | step hp _ ih => exact ih (h'.next_of_not hp)

/-- A search for `p` may start where a search for a weaker property ends. -/
theorem skip (hpq : ∀ x, p x → q x) (h : FirstAlong next q a c) :
    FirstAlong next p a b ↔ FirstAlong next p c b := by
  induction h with
  | here _ => rfl
  | step hq _ ih => exact (step_iff fun hp => hq (hpq _ hp)).trans ih

end FirstAlong
