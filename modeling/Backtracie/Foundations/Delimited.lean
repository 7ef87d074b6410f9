import Mathlib.Data.List.Basic

/-!
# Parts with delimiters

Lists that are put together from parts with delimiters between them, and taken apart again: at the
first element that is a delimiter (`splitFirst`), and before a suffix (`stripSuffix`). Each of them
undoes the concatenation it is for, when no delimiter is in the part before
(`splitFirst_append_cons`, `stripSuffix_append`). So does `List.splitOn` (`splitOn_append_flatMap`).
-/

namespace Delimited

variable {α : Type*}

/-- The part before the first element with property `p`, that element, and the part behind. -/
def splitFirst (p : α → Bool) : List α → Option (List α × α × List α)
  | [] => none
  | a :: as =>
    if p a then some ([], a, as)
    else (splitFirst p as).map fun parts => (a :: parts.1, parts.2)

/-- The part before the suffix. -/
def stripSuffix [DecidableEq α] (suffix as : List α) : Option (List α) :=
  if as.drop (as.length - suffix.length) = suffix then
    some (as.take (as.length - suffix.length))
  else none

variable {p : α → Bool} {a : α} {as bs suffix : List α} {xs : List (List α)}

theorem splitFirst_append_cons (has : ∀ b ∈ as, p b = false) (ha : p a = true) :
    splitFirst p (as ++ a :: bs) = some (as, a, bs) := by
  induction as with
  | nil => exact if_pos ha
  | cons c cs ih =>
    have hc : p c = false := has c List.mem_cons_self
    have hcs := ih fun b hb => has b (List.mem_cons_of_mem c hb)
    rw [List.cons_append, splitFirst, hc, if_neg Bool.false_ne_true, hcs]
    rfl

theorem splitFirst_eq_none (has : ∀ b ∈ as, p b = false) : splitFirst p as = none := by
  induction as with
  | nil => rfl
  | cons c cs ih =>
    have hc : p c = false := has c List.mem_cons_self
    have hcs := ih fun b hb => has b (List.mem_cons_of_mem c hb)
    rw [splitFirst, hc, if_neg Bool.false_ne_true, hcs]
    rfl

theorem stripSuffix_append [DecidableEq α] : stripSuffix suffix (as ++ suffix) = some as := by
  have hlen : (as ++ suffix).length - suffix.length = as.length := by
    rw [List.length_append, Nat.add_sub_cancel]
  rw [stripSuffix, hlen, List.drop_left, if_pos rfl, List.take_left]

/-- Parts that have no delimiter in them, all but the first with one before it. -/
theorem splitOn_append_flatMap [DecidableEq α] (has : a ∉ as) (hxs : ∀ bs ∈ xs, a ∉ bs) :
    (as ++ xs.flatMap (a :: ·)).splitOn a = as :: xs := by
  induction xs generalizing as with
  | nil => rw [List.flatMap_nil, List.append_nil, List.splitOn_eq_singleton has]
  | cons bs xs ih =>
    have hbs := ih (hxs bs List.mem_cons_self) fun cs hcs => hxs cs (List.mem_cons_of_mem bs hcs)
    rw [List.flatMap_cons, List.cons_append, List.splitOn_append_cons_self_of_not_mem has, hbs]

end Delimited
