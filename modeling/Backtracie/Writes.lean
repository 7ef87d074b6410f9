import Backtracie.Naming

/-!
# Functions that write strings

The functions of `Naming` are recursive, with a counter. `WritesText write text a` says that
`write` comes to an end once the counter is large enough, returns `a`, appends strings only, and
that these make up `text`. `Writes write a` is the same without the text.

* `WritesText.bind`, `WritesText.succ`: one function after another, and a recursive call;
* `WritesText.unique`: there is only one such text.
-/

namespace Backtracie

open CMem Traced

variable {α β : Type} {a a' : α} {b : β} {text text' : Bytes}

/-- With a large enough counter the computation returns `a`, having appended strings only. -/
def Writes {α : Type} (write : ℕ → Emit α) (a : α) : Prop :=
  ∃ tr, Settles write tr a ∧ ∀ p ∈ tr, p.Proper

/-- With a large enough counter the computation returns `a`, having appended strings that make up
`text`. -/
def WritesText {α : Type} (write : ℕ → Emit α) (text : Bytes) (a : α) : Prop :=
  ∃ tr, Settles write tr a ∧ (∀ p ∈ tr, p.Proper) ∧ textOf tr = text

theorem writes_iff {write : ℕ → Emit α} : Writes write a ↔ ∃ text, WritesText write text a := by
  constructor
  · rintro ⟨tr, hsettles, hproper⟩
    exact ⟨_, tr, hsettles, hproper, rfl⟩
  · rintro ⟨_, tr, hsettles, hproper, -⟩
    exact ⟨tr, hsettles, hproper⟩

/-! ## The text -/

namespace WritesText

theorem writes {write : ℕ → Emit α} (h : WritesText write text a) : Writes write a :=
  writes_iff.2 ⟨text, h⟩

theorem unique {write : ℕ → Emit α} (h : WritesText write text a)
    (h' : WritesText write text' a') : text = text' := by
  obtain ⟨tr, ⟨N, hN⟩, -, rfl⟩ := h
  obtain ⟨tr', ⟨M, hM⟩, -, rfl⟩ := h'
  rw [← (hN (N + M) (Nat.le_add_right N M)).trace, ← (hM (N + M) (Nat.le_add_left M N)).trace]

theorem of_settles {write : ℕ → Emit α} (h : Settles write [] a) : WritesText write [] a :=
  ⟨[], h, by simp, rfl⟩

theorem pure (a : α) : WritesText (fun _ => Pure.pure a) [] a :=
  of_settles (Settles.const (Yields.pure a))

theorem bind {write : ℕ → Emit α} {rest : ℕ → α → Emit β} (h : WritesText write text a)
    (hrest : WritesText (fun n => rest n a) text' b) :
    WritesText (fun n => write n >>= rest n) (text ++ text') b := by
  obtain ⟨tr, hsettles, hproper, rfl⟩ := h
  obtain ⟨tr', hsettles', hproper', rfl⟩ := hrest
  refine ⟨tr ++ tr', hsettles.bind hsettles', ?_, textOf_append tr tr'⟩
  intro p hp
  rcases List.mem_append.1 hp with hp | hp
  · exact hproper p hp
  · exact hproper' p hp

/-- As `bind`, where what follows does not depend on the value. -/
theorem andThen {write : ℕ → Emit α} {rest : ℕ → Emit β} (h : WritesText write text a)
    (hrest : WritesText rest text' b) :
    WritesText (fun n => write n >>= fun _ => rest n) (text ++ text') b :=
  h.bind hrest

/-- A recursive call. -/
theorem succ {write write' : ℕ → Emit α} (h : WritesText write text a)
    (hsucc : ∀ n, write' (n + 1) = write n) : WritesText write' text a := by
  obtain ⟨tr, hsettles, hrest⟩ := h
  exact ⟨tr, hsettles.succ hsucc, hrest⟩

end WritesText

theorem append_text (cat : String) (h : NulFree (lit cat)) :
    WritesText (fun _ => append cat) (lit cat) () := by
  refine ⟨_, Settles.const (Yields.emit _), ?_, ?_⟩
  · simpa [Piece.Proper] using h
  · simp [Piece.text]

theorem appendValue_text {vm : VM} {val : VALUE} (h : vm.rbType val = .tString) :
    WritesText (fun _ => appendValue vm val) (vm.rstring val).bytes () := by
  refine ⟨_, Settles.const (Yields.emit _), ?_, ?_⟩
  · simp [Piece.Proper, VM.stringContent, h]
  · simp [Piece.text, VM.stringContent, h]

/-! ## Strings only -/

namespace Writes

theorem pure (a : α) : Writes (fun _ => Pure.pure a) a := (WritesText.pure a).writes

theorem bind {write : ℕ → Emit α} {rest : ℕ → α → Emit β} (h : Writes write a)
    (hrest : Writes (fun n => rest n a) b) : Writes (fun n => write n >>= rest n) b := by
  obtain ⟨text, h⟩ := writes_iff.1 h
  obtain ⟨text', hrest⟩ := writes_iff.1 hrest
  exact (h.bind hrest).writes

/-- As `bind`, where what follows does not depend on the value. -/
theorem andThen {write : ℕ → Emit α} {rest : ℕ → Emit β} (h : Writes write a)
    (hrest : Writes rest b) : Writes (fun n => write n >>= fun _ => rest n) b :=
  h.bind hrest

theorem congr {write write' : ℕ → Emit α} (h : Writes write a)
    (heq : ∀ n, write' n = write n) : Writes write' a := by
  rwa [show write' = write from funext heq]

end Writes

theorem append_writes (cat : String) (h : NulFree (lit cat)) : Writes (fun _ => append cat) () :=
  (append_text cat h).writes

theorem appendValue_writes {vm : VM} {val : VALUE} (h : vm.rbType val = .tString) :
    Writes (fun _ => appendValue vm val) () :=
  (appendValue_text h).writes

end Backtracie
