import Backtracie.Foundations.Traced
import Mathlib.Data.List.Basic

/-!
# Filling an array with what is accepted

A loop makes something for each element of a list, in the slot behind those that are filled. The
slot counts as filled only if what was made is accepted, or else it is used again. Afterwards the
first slots are those made for the accepted elements, in their order, and the other slots are as
they were (`fill_spec`).
-/

namespace Filling

open Traced

variable {ε φ : Type} {α : Type} {ι : Type}

/-- The array, and the number of its slots that are filled. -/
abbrev State (α : Type) := List α × ℕ

/-- One round: `produce i` makes something of what the slot holds. Without a slot left it ends in
the fault `full`. -/
def fillRound (full : φ) (produce : ι → α → Except φ (Bool × α)) (state : State α) (i : ι) :
    Traced ε φ (State α) := do
  let slot ← lift (state.1[state.2]?.elim (.error full) .ok)
  let (accepted, a) ← lift (produce i slot)
  pure (state.1.set state.2 a, if accepted then state.2 + 1 else state.2)

/-- The loop, over an array none of whose slots is filled. -/
def fill (full : φ) (produce : ι → α → Except φ (Bool × α)) (slots : List α) (is : List ι) :
    Traced ε φ (State α) :=
  fold (fillRound full produce) (slots, 0) is

/-- The first of the `slots` are filled, each with what was made for one of the accepted
elements. -/
structure Filled (test : ι → Bool) (made : ι → α → Prop) (slots : List α) (done : List ι)
    (state : State α) : Prop where
  length : state.1.length = slots.length
  count : state.2 = (done.filter test).length
  filled : ∀ (j : ℕ) (i : ι), (done.filter test)[j]? = some i →
    ∃ a, state.1[j]? = some a ∧ made i a
  rest : ∀ (j : ℕ), state.2 ≤ j → state.1[j]? = slots[j]?

variable {full : φ} {produce : ι → α → Except φ (Bool × α)} {test : ι → Bool}
  {made : ι → α → Prop} {slots : List α} {done : List ι} {state : State α} {i : ι} {a : α}

theorem Filled.start (slots : List α) : Filled test made slots [] (slots, 0) where
  length := rfl
  count := rfl
  filled j i h := by cases h
  rest j _ := rfl

/-- An element that is accepted. -/
theorem Filled.accept (h : Filled test made slots done state) (hi : test i = true)
    (hmade : made i a) (hroom : state.2 < slots.length) :
    Filled test made slots (done ++ [i]) (state.1.set state.2 a, state.2 + 1) := by
  have hfilter : (done ++ [i]).filter test = done.filter test ++ [i] := by simp [hi]
  refine ⟨?_, ?_, fun j i' hj => ?_, fun j hj => ?_⟩
  · rw [List.length_set, h.length]
  · rw [hfilter, List.length_append, h.count, List.length_singleton]
  · rw [hfilter] at hj
    rcases Nat.lt_or_ge j state.2 with hlt | hge
    · rw [List.getElem?_append_left (h.count ▸ hlt)] at hj
      rw [List.getElem?_set_ne (Nat.ne_of_gt hlt)]
      exact h.filled j i' hj
    · -- the slot that was just filled
      rw [List.getElem?_append_right (h.count ▸ hge)] at hj
      have hzero := (List.getElem?_eq_some_iff.1 hj).1
      have hlast : j = state.2 := by
        rw [List.length_singleton] at hzero
        have := h.count
        omega
      subst hlast
      rw [h.count, Nat.sub_self, List.getElem?_cons_zero] at hj
      rw [List.getElem?_set_self (h.length ▸ hroom)]
      exact ⟨a, rfl, Option.some.inj hj ▸ hmade⟩
  · rw [List.getElem?_set_ne (Nat.ne_of_lt hj)]
    exact h.rest j (Nat.le_of_succ_le hj)

/-- An element that is not. -/
theorem Filled.reject (h : Filled test made slots done state) (hi : test i = false) :
    Filled test made slots (done ++ [i]) state := by
  have hfilter : (done ++ [i]).filter test = done.filter test := by simp [hi]
  refine ⟨h.length, ?_, fun j i' hj => ?_, h.rest⟩
  · rw [hfilter]
    exact h.count
  · rw [hfilter] at hj
    exact h.filled j i' hj

/-- The loop's next round always has a slot. -/
theorem Filled.slot (h : Filled test made slots done state) (hroom : done.length < slots.length) :
    state.2 < slots.length ∧ ∃ slot, state.1[state.2]? = some slot := by
  have hlt : state.2 < slots.length :=
    h.count ▸ Nat.lt_of_le_of_lt (List.length_filter_le test done) hroom
  exact ⟨hlt, _, List.getElem?_eq_getElem (h.length ▸ hlt)⟩

/-- A round. -/
theorem fillRound_spec (h : Filled test made slots done state) (hroom : done.length < slots.length)
    (haccept : test i = true → ∀ slot, ∃ a, produce i slot = .ok (true, a) ∧ made i a)
    (hreject : test i = false → ∀ slot, produce i slot = .ok (false, slot)) :
    ∃ tr state', (fillRound full produce state i : Traced ε φ (State α)).Yields tr state' ∧
      (∀ e ∈ tr, True) ∧ Filled test made slots (done ++ [i]) state' := by
  obtain ⟨hlt, slot, hget⟩ := h.slot hroom
  unfold fillRound
  rw [hget]
  cases hi : test i with
  | true =>
    obtain ⟨a, ha, hmade⟩ := haccept hi slot
    refine ⟨[], _, ?_, fun _ _ => trivial, h.accept hi hmade hlt⟩
    simp only [Option.elim, lift_ok, pure_bind, ha]
    rfl
  | false =>
    refine ⟨[], state, ?_, fun _ _ => trivial, h.reject hi⟩
    have hset : state.1.set state.2 slot = state.1 := by
      rw [← (List.getElem?_eq_some_iff.1 hget).2, List.set_getElem_self]
    simp only [Option.elim, lift_ok, pure_bind, hreject hi, hset]
    rfl

/-- **The loop fills the first slots** with what is accepted, when there are as many slots as
elements. -/
theorem fill_spec {is : List ι} (hroom : is.length ≤ slots.length)
    (haccept : ∀ i ∈ is, test i = true → ∀ slot, ∃ a, produce i slot = .ok (true, a) ∧ made i a)
    (hreject : ∀ i ∈ is, test i = false → ∀ slot, produce i slot = .ok (false, slot)) :
    ∃ slots', (fill full produce slots is : Traced ε φ (State α)).result =
        .ok (slots', (is.filter test).length) ∧
      Filled test made slots is (slots', (is.filter test).length) := by
  have hround : ∀ done i rest state, Filled test made slots done state → done ++ i :: rest = is →
      ∃ tr state', (fillRound full produce state i : Traced ε φ (State α)).Yields tr state' ∧
        (∀ e ∈ tr, True) ∧ Filled test made slots (done ++ [i]) state' := by
    intro done i rest state h his
    have hmem : i ∈ is := his ▸ List.mem_append_right done List.mem_cons_self
    refine fillRound_spec h (Nat.lt_of_lt_of_le ?_ hroom) (haccept i hmem) (hreject i hmem)
    rw [← his, List.length_append, List.length_cons]
    omega
  obtain ⟨tr, state, hrun, -, hfilled⟩ :=
    fold_spec (Filled test made slots) hround [] (List.nil_append is) (Filled.start slots)
  have hstate : state = (state.1, (is.filter test).length) := by rw [← hfilled.count]
  rw [hstate] at hrun hfilled
  exact ⟨state.1, hrun.result, hfilled⟩

end Filling
