import Mathlib.Data.List.Basic

/-!
# Computations that log events and may end in a fault

`Traced ε φ α` is a computation that logs events of type `ε` while it runs and ends in a value
of type `α` or in a fault of type `φ`. The events logged before a fault are kept, so a property
of a run ("every write was in bounds") can be read off the trace of a run that did not return.

* `Traced.emit`, `Traced.fault`, `Traced.lift` are the primitive computations;
* `m.Yields tr a` says that `m` returns `a` with trace `tr`; `Traced.Yields.bind` composes two
  such runs, `Traced.Yields.of_bind` takes them apart;
* `Traced.Settles` is a computation with a counter that no longer depends on it;
* `Traced.fold` runs an operation over a list, carrying a state; `Traced.fold_spec` is its
  invariant rule, `Traced.fold_countUp` and `Traced.fold_countDown` are those of counting loops;
* `Traced.Matches R` relates two computations that log the same events and end in related values,
  or in the same fault; `Traced.Matches.bind` composes them.
-/

universe u v w

/-- A computation that logged `trace` and ended with `result`. -/
structure Traced (ε : Type u) (φ : Type v) (α : Type w) where
  trace : List ε
  result : Except φ α

namespace Traced

variable {ε : Type u} {φ : Type v} {α β σ : Type w} {ι : Type*}

/-- Run `m`, then `f` on its value; a fault of `m` ends the run. -/
protected def bind (m : Traced ε φ α) (f : α → Traced ε φ β) : Traced ε φ β :=
  match m.result with
  | .ok a => ⟨m.trace ++ (f a).trace, (f a).result⟩
  | .error e => ⟨m.trace, .error e⟩

instance : Monad (Traced ε φ) where
  pure a := ⟨[], .ok a⟩
  bind := Traced.bind

/-- Log one event. -/
def emit (e : ε) : Traced ε φ Unit := ⟨[e], .ok ()⟩

/-- End the run in a fault. -/
def fault (e : φ) : Traced ε φ α := ⟨[], .error e⟩

/-- A computation that logs nothing. -/
def lift (r : Except φ α) : Traced ε φ α := ⟨[], r⟩

@[ext] theorem ext {m m' : Traced ε φ α} (ht : m.trace = m'.trace) (hr : m.result = m'.result) :
    m = m' := by
  cases m
  cases m'
  simp_all

@[simp] theorem mk_ok_bind (tr : List ε) (a : α) (f : α → Traced ε φ β) :
    ((⟨tr, .ok a⟩ : Traced ε φ α) >>= f) = ⟨tr ++ (f a).trace, (f a).result⟩ := rfl

@[simp] theorem mk_error_bind (tr : List ε) (e : φ) (f : α → Traced ε φ β) :
    ((⟨tr, .error e⟩ : Traced ε φ α) >>= f) = ⟨tr, .error e⟩ := rfl

@[simp] theorem pure_trace (a : α) : (pure a : Traced ε φ α).trace = [] := rfl

@[simp] theorem pure_result (a : α) : (pure a : Traced ε φ α).result = .ok a := rfl

@[simp] theorem lift_ok (a : α) : (lift (.ok a) : Traced ε φ α) = pure a := rfl

/-- A fault of the first part is a fault of the whole. -/
theorem bind_error {m : Traced ε φ α} {e : φ} (h : m.result = .error e) (f : α → Traced ε φ β) :
    (m >>= f).result = .error e := by
  rcases m with ⟨tr, _ | a⟩
  · simpa using h
  · cases h

/-- The result of the whole, once the first part has returned. -/
theorem result_bind {m : Traced ε φ α} {a : α} (h : m.result = .ok a) (f : α → Traced ε φ β) :
    (m >>= f).result = (f a).result := by
  rcases m with ⟨tr, r⟩
  obtain rfl : r = .ok a := h
  rfl

theorem bind_pure_id (m : Traced ε φ α) : (m >>= fun a => pure (id a)) = m := by
  rcases m with ⟨tr, _ | a⟩
  · rfl
  · simp

theorem bind_bind {γ : Type w} (m : Traced ε φ α) (f : α → Traced ε φ β) (g : β → Traced ε φ γ) :
    (m >>= f >>= g) = m >>= fun a => f a >>= g := by
  rcases m with ⟨tr, _ | a⟩
  · rfl
  · rw [mk_ok_bind, mk_ok_bind]
    rcases f a with ⟨tr', _ | b⟩
    · rfl
    · simp

instance : LawfulMonad (Traced ε φ) :=
  LawfulMonad.mk' (Traced ε φ) bind_pure_id (fun _ _ => rfl) bind_bind

/-! ## Results alone -/

/-- A composed computation that returns is made of two that return. -/
theorem except_bind_ok {m : Except φ α} {f : α → Except φ β} {b : β} (h : (m >>= f) = .ok b) :
    ∃ a, m = .ok a ∧ f a = .ok b := by
  cases m with
  | error e => cases h
  | ok a => exact ⟨a, rfl, h⟩

/-- Two parts that are each changed by a map. -/
theorem except_map_bind {γ δ : Type w} {m : Except φ α} {f : α → β} {g : β → Except φ γ}
    {g' : α → Except φ δ} {h : δ → γ} (heq : ∀ a, g (f a) = (g' a).map h) :
    (m.map f >>= g) = (m >>= g').map h := by
  cases m with
  | error e => rfl
  | ok a => exact heq a

/-! ## Runs that return -/

/-- `m` returns `a`, having logged `tr`. -/
def Yields (m : Traced ε φ α) (tr : List ε) (a : α) : Prop := m = ⟨tr, .ok a⟩

namespace Yields

theorem pure (a : α) : (Pure.pure a : Traced ε φ α).Yields [] a := rfl

theorem emit (e : ε) : (Traced.emit e : Traced ε φ Unit).Yields [e] () := rfl

theorem bind {m : Traced ε φ α} {f : α → Traced ε φ β} {tr tr' : List ε} {a : α} {b : β}
    (hm : m.Yields tr a) (hf : (f a).Yields tr' b) : (m >>= f).Yields (tr ++ tr') b := by
  unfold Yields at *
  rw [hm, mk_ok_bind, hf]

/-- A composed run that returns is made of two that return. -/
theorem of_bind {m : Traced ε φ α} {f : α → Traced ε φ β} {tr : List ε} {b : β}
    (h : (m >>= f).Yields tr b) :
    ∃ tr₁ a tr₂, m.Yields tr₁ a ∧ (f a).Yields tr₂ b ∧ tr = tr₁ ++ tr₂ := by
  rcases m with ⟨tr₁, _ | a⟩
  · cases h
  · rcases hf : f a with ⟨tr₂, r⟩
    unfold Yields at h
    rw [mk_ok_bind, hf] at h
    cases h
    exact ⟨tr₁, a, tr₂, rfl, hf, rfl⟩

theorem result {m : Traced ε φ α} {tr : List ε} {a : α} (h : m.Yields tr a) : m.result = .ok a := by
  rw [h]

theorem trace {m : Traced ε φ α} {tr : List ε} {a : α} (h : m.Yields tr a) : m.trace = tr := by
  rw [h]

end Yields

/-- What follows a computation matters only for the values it returns. -/
theorem bind_congr_of_yields {m : Traced ε φ α} {f g : α → Traced ε φ β}
    (h : ∀ tr a, m.Yields tr a → f a = g a) : (m >>= f) = m >>= g := by
  rcases m with ⟨tr, _ | a⟩
  · rfl
  · rw [mk_ok_bind, mk_ok_bind, h tr a rfl]

/-! ## Computations with a counter

A loop or a recursion that need not end is given a counter that bounds its depth. It has ended when
from some value of the counter on it always runs in the same way. -/

/-- From some value of the counter on, the computation returns `a` with trace `tr`. -/
def Settles (m : ℕ → Traced ε φ α) (tr : List ε) (a : α) : Prop :=
  ∃ N, ∀ n, N ≤ n → (m n).Yields tr a

namespace Settles

theorem const {m : Traced ε φ α} {tr : List ε} {a : α} (h : m.Yields tr a) :
    Settles (fun _ => m) tr a :=
  ⟨0, fun _ _ => h⟩

theorem bind {m : ℕ → Traced ε φ α} {f : ℕ → α → Traced ε φ β} {tr tr' : List ε} {a : α} {b : β}
    (hm : Settles m tr a) (hf : Settles (fun n => f n a) tr' b) :
    Settles (fun n => m n >>= f n) (tr ++ tr') b := by
  obtain ⟨N, hN⟩ := hm
  obtain ⟨M, hM⟩ := hf
  exact ⟨N + M, fun n hn => (hN n (by omega)).bind (hM n (by omega))⟩

/-- A recursive call that spends one unit of the counter. -/
theorem succ {m m' : ℕ → Traced ε φ α} {tr : List ε} {a : α} (hm : Settles m tr a)
    (h : ∀ n, m' (n + 1) = m n) : Settles m' tr a := by
  obtain ⟨N, hN⟩ := hm
  refine ⟨N + 1, fun n hn => ?_⟩
  obtain ⟨k, rfl⟩ : ∃ k, n = k + 1 := ⟨n - 1, by omega⟩
  rw [h]
  exact hN k (by omega)

end Settles

/-- Finitely many bounds on a counter have a common one. -/
theorem exists_common_bound {P : ℕ → ℕ → Prop} (n : ℕ) (h : ∀ i < n, ∃ N, ∀ m, N ≤ m → P i m) :
    ∃ N, ∀ m, N ≤ m → ∀ i < n, P i m := by
  induction n with
  | zero => exact ⟨0, fun m _ i hi => absurd hi (Nat.not_lt_zero i)⟩
  | succ n ih =>
    obtain ⟨N, hN⟩ := ih fun i hi => h i (by omega)
    obtain ⟨M, hM⟩ := h n (by omega)
    refine ⟨N + M, fun m hm i hi => ?_⟩
    rcases Nat.lt_succ_iff_lt_or_eq.1 hi with hi | rfl
    · exact hN m (by omega) i hi
    · exact hM m (by omega)

/-! ## Folding an operation over a list -/

/-- Run `op` on every element of the list from the left, carrying a state. -/
def fold (op : σ → ι → Traced ε φ σ) : σ → List ι → Traced ε φ σ
  | s, [] => pure s
  | s, a :: as => op s a >>= fun s' => fold op s' as

@[simp] theorem fold_nil (op : σ → ι → Traced ε φ σ) (s : σ) : fold op s [] = pure s := rfl

theorem fold_cons (op : σ → ι → Traced ε φ σ) (s : σ) (a : ι) (as : List ι) :
    fold op s (a :: as) = op s a >>= fun s' => fold op s' as := rfl

theorem fold_append (op : σ → ι → Traced ε φ σ) (s : σ) (as bs : List ι) :
    fold op s (as ++ bs) = fold op s as >>= fun s' => fold op s' bs := by
  induction as generalizing s with
  | nil => simp
  | cons a as ih => simp only [List.cons_append, fold_cons, ih, bind_assoc]

theorem fold_concat (op : σ → ι → Traced ε φ σ) (s : σ) (as : List ι) (a : ι) :
    fold op s (as ++ [a]) = fold op s as >>= fun s' => op s' a := by
  simp only [fold_append, fold_cons, fold_nil, bind_pure]

/-- **The invariant rule of `fold`**: if from a state related to the elements already consumed
the operation on the next element returns a related state and logs only events of `Good`, the
whole fold returns a related state and logs only events of `Good`. -/
theorem fold_spec {op : σ → ι → Traced ε φ σ} (Inv : List ι → σ → Prop) {Good : ε → Prop}
    {as : List ι}
    (step : ∀ done a rest s, Inv done s → (done ++ a :: rest) = as →
      ∃ tr s', (op s a).Yields tr s' ∧ (∀ e ∈ tr, Good e) ∧ Inv (done ++ [a]) s')
    {rest : List ι} (done : List ι) {s : σ} (has : done ++ rest = as) (h : Inv done s) :
    ∃ tr s', (fold op s rest).Yields tr s' ∧ (∀ e ∈ tr, Good e) ∧ Inv as s' := by
  induction rest generalizing done s with
  | nil =>
    rw [List.append_nil] at has
    exact ⟨[], s, rfl, by simp, has ▸ h⟩
  | cons a rest ih =>
    obtain ⟨tr₁, s₁, h₁, hg₁, hi₁⟩ := step done a rest s h has
    obtain ⟨tr₂, s₂, h₂, hg₂, hi₂⟩ := ih (done ++ [a]) (by simpa using has) hi₁
    refine ⟨tr₁ ++ tr₂, s₂, Yields.bind h₁ h₂, fun e he => ?_, hi₂⟩
    rcases List.mem_append.1 he with he | he
    · exact hg₁ e he
    · exact hg₂ e he

/-- What each round preserves, a loop that returns preserves. -/
theorem fold_preserves {op : σ → ι → Traced ε φ σ} {P : σ → Prop}
    (step : ∀ s i tr s', P s → (op s i).Yields tr s' → P s') {is : List ι} {s s' : σ} {tr : List ε}
    (h : P s) (hrun : (fold op s is).Yields tr s') : P s' := by
  induction is generalizing s tr with
  | nil =>
    cases hrun
    exact h
  | cons i is ih =>
    obtain ⟨tr₁, s₁, tr₂, h₁, h₂, -⟩ := hrun.of_bind
    exact ih (step s i tr₁ s₁ h h₁) h₂

/-! ## Loops that count -/

/-- **A loop that counts up** from `k` over `m` numbers: what holds before the loop for `k`, and is
passed on from each number to the next, holds after it for `k + m`. -/
theorem fold_countUp {op : σ → ℕ → Traced ε φ σ} (Inv : ℕ → σ → Prop) {Good : ε → Prop} {m k : ℕ}
    (step : ∀ j s, k ≤ j → j < k + m → Inv j s →
      ∃ tr s', (op s j).Yields tr s' ∧ (∀ e ∈ tr, Good e) ∧ Inv (j + 1) s')
    {s : σ} (h : Inv k s) :
    ∃ tr s', (fold op s (List.range' k m)).Yields tr s' ∧ (∀ e ∈ tr, Good e) ∧ Inv (k + m) s' := by
  induction m generalizing k s with
  | zero => exact ⟨[], s, rfl, by simp, h⟩
  | succ m ih =>
    obtain ⟨tr₁, s₁, h₁, hg₁, hi₁⟩ := step k s (Nat.le_refl k) (by omega) h
    obtain ⟨tr₂, s₂, h₂, hg₂, hi₂⟩ :=
      ih (fun j s hk hm hj => step j s (by omega) (by omega) hj) hi₁
    refine ⟨tr₁ ++ tr₂, s₂, h₁.bind h₂, fun e he => ?_, ?_⟩
    · rcases List.mem_append.1 he with he | he
      · exact hg₁ e he
      · exact hg₂ e he
    · rwa [show k + (m + 1) = k + 1 + m by omega]

/-- **A loop that counts down** from `n - 1` to `0`, logging the events `log j` in round `j`. -/
theorem fold_countDown {op : σ → ℕ → Traced ε φ σ} (Inv : ℕ → σ → Prop) (log : ℕ → List ε) {n : ℕ}
    (step : ∀ j s, j < n → Inv (j + 1) s → ∃ s', (op s j).Yields (log j) s' ∧ Inv j s')
    {s : σ} (h : Inv n s) :
    ∃ s', (fold op s (List.range n).reverse).Yields ((List.range n).reverse.flatMap log) s' ∧
      Inv 0 s' := by
  induction n generalizing s with
  | zero => exact ⟨s, rfl, h⟩
  | succ n ih =>
    obtain ⟨s₁, h₁, hi₁⟩ := step n s (by omega) h
    obtain ⟨s₂, h₂, hi₂⟩ := ih (fun j s hj => step j s (by omega)) hi₁
    rw [List.range_succ, List.reverse_append, List.reverse_singleton, List.singleton_append,
      List.flatMap_cons]
    exact ⟨s₂, h₁.bind h₂, hi₂⟩

/-! ## Computations in step -/

/-- Two computations log the same events and end alike: in related values, or in the same fault. -/
inductive Matches (R : α → β → Prop) : Traced ε φ α → Traced ε φ β → Prop
  | ok (tr : List ε) {a : α} {b : β} (h : R a b) : Matches R ⟨tr, .ok a⟩ ⟨tr, .ok b⟩
  | error (tr : List ε) (e : φ) : Matches R ⟨tr, .error e⟩ ⟨tr, .error e⟩

namespace Matches

variable {γ δ : Type w} {R : α → β → Prop} {m : Traced ε φ α} {m' : Traced ε φ β}

theorem bind {S : γ → δ → Prop} {f : α → Traced ε φ γ} {g : β → Traced ε φ δ}
    (h : Matches R m m') (hfg : ∀ a b, R a b → Matches S (f a) (g b)) :
    Matches S (m >>= f) (m' >>= g) := by
  cases h with
  | error tr e => exact .error tr e
  | @ok tr a b hab =>
    rw [mk_ok_bind, mk_ok_bind]
    rcases hf : f a with ⟨trf, rf⟩
    rcases hg : g b with ⟨trg, rg⟩
    have hstep := hfg a b hab
    rw [hf, hg] at hstep
    cases hstep with
    | ok _ hcd => exact .ok _ hcd
    | error _ e => exact .error _ e

theorem refl (m : Traced ε φ α) : Matches Eq m m := by
  rcases m with ⟨tr, e | a⟩
  · exact .error tr e
  · exact .ok tr rfl

/-- The same computation, then computations in step. -/
theorem bind_left {S : γ → δ → Prop} {f : α → Traced ε φ γ} {g : α → Traced ε φ δ}
    (hfg : ∀ tr a, m.Yields tr a → Matches S (f a) (g a)) : Matches S (m >>= f) (m >>= g) := by
  rcases m with ⟨tr, e | a⟩
  · exact .error tr e
  · apply bind (R := fun x y => x = a ∧ y = a) (.ok tr ⟨rfl, rfl⟩)
    rintro _ _ ⟨rfl, rfl⟩
    exact hfg tr _ rfl

/-- Only what the two computations end in. -/
theorem lift_result {ε' : Type u} (h : Matches R m m') :
    Matches R (lift m.result : Traced ε' φ α) (lift m'.result) := by
  cases h with
  | error tr e => exact .error [] e
  | ok tr h => exact .ok [] h

/-- **Two loops in step**: each round takes related states to related states. -/
theorem fold {τ : Type w} {R : σ → τ → Prop} {op : σ → ι → Traced ε φ σ}
    {op' : τ → ι → Traced ε φ τ} {is : List ι}
    (hstep : ∀ i ∈ is, ∀ s t, R s t → Matches R (op s i) (op' t i)) {s : σ} {t : τ} (h : R s t) :
    Matches R (Traced.fold op s is) (Traced.fold op' t is) := by
  induction is generalizing s t with
  | nil => exact .ok [] h
  | cons i is ih =>
    rw [fold_cons, fold_cons]
    apply (hstep i List.mem_cons_self s t h).bind
    intro s' t' h'
    exact ih (fun j hj => hstep j (List.mem_cons_of_mem i hj)) h'

theorem trace_eq (h : Matches R m m') : m.trace = m'.trace := by
  cases h <;> rfl

/-- When the second computation yields a value, so does the first. -/
theorem yields (h : Matches R m m') {tr : List ε} {b : β} (hm' : m'.Yields tr b) :
    ∃ a, m.Yields tr a ∧ R a b := by
  cases h with
  | error _ e => cases hm'
  | ok tr hab =>
    cases hm'
    exact ⟨_, rfl, hab⟩

theorem mono {S : α → β → Prop} (h : Matches R m m') (hRS : ∀ a b, R a b → S a b) :
    Matches S m m' := by
  cases h with
  | error tr e => exact .error tr e
  | ok tr hab => exact .ok tr (hRS _ _ hab)

end Matches

end Traced
