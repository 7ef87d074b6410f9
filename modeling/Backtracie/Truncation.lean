import Backtracie.Lawful

/-!
# Truncation in the caller's buffer

The header promises that a `…Cstr` function truncates as `snprintf` does. It does so exactly when
every Ruby string it writes comes while the text before it is shorter than the buffer
(`cstr_contract_iff`). The literals in between do not matter: `strlcat` copes with a buffer that is
full. A Ruby string does: with no room left, the size of its copy wraps around to the largest size
there is (`cstr_contract_fails`).
-/

namespace Backtracie

open CMem Traced

/-- **The contract of `snprintf`**, for a builder on a buffer of any size and for each function of
the interface that writes to such a buffer: it is kept exactly when every Ruby string among the
appends comes before the text has reached the size of the buffer. -/
theorem cstr_contract_iff (junk : ℕ → UInt8) (buf : Bytes) :
    (∀ pieces : List Piece, (∀ p ∈ pieces, p.Proper) →
      (SnprintfContract buf.length (textOf pieces) (writePieces junk buf pieces) ↔
        ValuesFit buf.length pieces)) ∧
    ∀ (f : CstrFunction) (rt : Runtime) (depth : ℕ), (f.writes rt depth).result = .ok () →
      (∀ p ∈ (f.writes rt depth).trace, p.Proper) →
      (SnprintfContract buf.length (textOf (f.writes rt depth).trace) (f.call junk rt depth buf) ↔
        ValuesFit buf.length (f.writes rt depth).trace) := by
  refine ⟨fun pieces hproper => snprintf_iff_valuesFit junk buf hproper,
    fun f rt depth hok hproper => ?_⟩
  rw [f.call_eq, cstrQuery_of_ok junk hok]
  exact snprintf_iff_valuesFit junk buf hproper

/-- The method `C#m`, and the label of a frame, in a buffer of two bytes. -/
theorem cstr_contract_iff_two_bytes :
    (∀ p ∈ [Piece.appendValue (lit "C"), .append (lit "#"), .appendValue (lit "m")], p.Proper) ∧
      (SnprintfContract 2 (lit "C#m") (writePieces (fun _ => 0) [1, 1]
        [.appendValue (lit "C"), .append (lit "#"), .appendValue (lit "m")]) ↔
        ValuesFit 2 [.appendValue (lit "C"), .append (lit "#"), .appendValue (lit "m")]) ∧
      (SnprintfContract 2 (lit "m") (frameLabelCstr (fun _ => 0)
        (bootRuntime (bootThread false [rubyFrame 80]))
        (locationOfFrame (bootRuntime (bootThread false [rubyFrame 80])) (rubyFrame 80)) false
        [1, 1]) ↔ ValuesFit 2 [.appendValue (lit "m")]) := by
  have hproper : ∀ p ∈ [Piece.appendValue (lit "C"), .append (lit "#"), .appendValue (lit "m")],
      p.Proper := by
    simp only [List.mem_cons, List.not_mem_nil, or_false]
    rintro p (rfl | rfl | rfl)
    · rfl
    · show NulFree (lit "#")
      decide
    · rfl
  refine ⟨hproper, (cstr_contract_iff (fun _ => 0) [1, 1]).1 _ hproper, ?_⟩
  refine (cstr_contract_iff (fun _ => 0) [1, 1]).2
    (.frameLabel (locationOfFrame (bootRuntime (bootThread false [rubyFrame 80])) (rubyFrame 80))
      false) (bootRuntime (bootThread false [rubyFrame 80])) 0 rfl ?_
  intro p hp
  obtain rfl := List.mem_singleton.1 hp
  rfl

/-- **The method `C#m` in a buffer of two bytes**: the `m` comes when no byte is left, and `memcpy`
is asked to write `SIZE_MAX` bytes behind the end of the buffer. The same happens to a label in an
empty buffer. -/
theorem cstr_contract_fails :
    (writePieces (fun _ => 0) [1, 1]
      [.appendValue (lit "C"), .append (lit "#"), .appendValue (lit "m")]).result =
        .error (.wild 2 (sizeModulus - 1) 2) ∧
    ¬SnprintfContract 2 (lit "C#m") (writePieces (fun _ => 0) [1, 1]
      [.appendValue (lit "C"), .append (lit "#"), .appendValue (lit "m")]) ∧
    ¬SnprintfContract 0 (lit "m") (writePieces (fun _ => 0) [] [.appendValue (lit "m")]) := by
  have htwo : (writePieces (fun _ => 0) [1, 1]
      [.appendValue (lit "C"), .append (lit "#"), .appendValue (lit "m")]).result =
        .error (.wild 2 (sizeModulus - 1) 2) := by decide
  have hnone : (writePieces (fun _ => 0) [] [.appendValue (lit "m")]).result =
      .error (.wild 0 (sizeModulus - 1) 0) := by decide
  refine ⟨htwo, ?_, ?_⟩
  · rintro ⟨-, buf, hres, -⟩
    rw [htwo] at hres
    cases hres
  · rintro ⟨-, buf, hres, -⟩
    rw [hnone] at hres
    cases hres

end Backtracie
