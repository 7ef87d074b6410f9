import Mathlib.Data.List.Basic

/-!
# The nearest element from a position on

`nearest p xs i` is the least index from `i` on of an element of `xs` with property `p`. A scan of
the list from its end carries it along: at each position it is that position, if the element there
has the property, or else what it was (`nearest_of_pos`, `nearest_of_neg`).
-/

namespace Nearest

variable {α : Type*} (p : α → Bool)

/-- The least index from `i` on of an element with property `p`. -/
def nearest (xs : List α) (i : ℕ) : Option ℕ := ((xs.drop i).findIdx? p).map (· + i)

variable {p} {xs : List α} {i j : ℕ} {x : α}

theorem nearest_of_length_le (h : xs.length ≤ i) : nearest p xs i = none := by
  rw [nearest, List.drop_eq_nil_of_le h]
  rfl

theorem drop_of_getElem? (h : xs[i]? = some x) : xs.drop i = x :: xs.drop (i + 1) := by
  obtain ⟨hi, rfl⟩ := List.getElem?_eq_some_iff.1 h
  exact List.drop_eq_getElem_cons hi

theorem nearest_of_pos (h : xs[i]? = some x) (hx : p x = true) : nearest p xs i = some i := by
  rw [nearest, drop_of_getElem? h, List.findIdx?_cons, if_pos hx]
  simp

theorem nearest_of_neg (h : xs[i]? = some x) (hx : p x = false) :
    nearest p xs i = nearest p xs (i + 1) := by
  rw [nearest, drop_of_getElem? h, List.findIdx?_cons, hx, if_neg Bool.false_ne_true, nearest,
    Option.map_map]
  congr 1
  funext m
  simp only [Function.comp_apply]
  omega

/-- The index found is one of the list from `i` on, of an element with the property, and no element
between has it. -/
theorem nearest_eq_some (h : nearest p xs i = some j) :
    i ≤ j ∧ (∃ x, xs[j]? = some x ∧ p x = true) ∧
      ∀ m, i ≤ m → m < j → ∀ x, xs[m]? = some x → p x = false := by
  induction hn : xs.length - i generalizing i with
  | zero =>
    rw [nearest_of_length_le (by omega)] at h
    cases h
  | succ n ih =>
    have hi : i < xs.length := by omega
    have hget : xs[i]? = some xs[i] := List.getElem?_eq_getElem hi
    cases hx : p xs[i] with
    | true =>
      rw [nearest_of_pos hget hx] at h
      obtain rfl := Option.some.inj h
      exact ⟨Nat.le_refl _, ⟨_, hget, hx⟩, fun m hm hlt => absurd hlt (by omega)⟩
    | false =>
      rw [nearest_of_neg hget hx] at h
      obtain ⟨hle, hfound, hbetween⟩ := ih h (by omega)
      refine ⟨by omega, hfound, fun m hm hlt y hy => ?_⟩
      rcases Nat.eq_or_lt_of_le hm with rfl | hm
      · obtain rfl := Option.some.inj (hget.symm.trans hy)
        exact hx
      · exact hbetween m hm hlt y hy

/-- When none is found, no element from `i` on has the property. -/
theorem nearest_eq_none (h : nearest p xs i = none) {m : ℕ} (hm : i ≤ m) (hx : xs[m]? = some x) :
    p x = false := by
  rw [nearest, Option.map_eq_none_iff, List.findIdx?_eq_none_iff] at h
  refine h x (List.mem_of_getElem? (i := m - i) ?_)
  rwa [List.getElem?_drop, Nat.add_sub_cancel' hm]

/-- The first index from `i` on of an element with the property is found. -/
theorem nearest_of_first (hij : i ≤ j) (hx : xs[j]? = some x) (hp : p x = true)
    (hbetween : ∀ m y, i ≤ m → m < j → xs[m]? = some y → p y = false) :
    nearest p xs i = some j := by
  rcases h : nearest p xs i with _ | k
  · rw [nearest_eq_none h hij hx] at hp
    cases hp
  · obtain ⟨hik, ⟨y, hy, hpy⟩, hfirst⟩ := nearest_eq_some h
    congr 1
    rcases Nat.lt_trichotomy k j with hlt | heq | hgt
    · rw [hbetween k y hik hlt hy] at hpy
      cases hpy
    · exact heq
    · rw [hfirst j hij hgt x hx] at hp
      cases hp

/-- Without an element from `i` on that has the property, none is found. -/
theorem nearest_of_none (h : ∀ j y, i ≤ j → xs[j]? = some y → p y = false) :
    nearest p xs i = none := by
  rcases hn : nearest p xs i with _ | k
  · rfl
  · obtain ⟨hik, ⟨y, hy, hpy⟩, -⟩ := nearest_eq_some hn
    rw [h k y hik hy] at hpy
    cases hpy

end Nearest
