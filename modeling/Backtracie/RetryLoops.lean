import Backtracie.StrbuilderGrowable

/-!
# The retry loops of the growable builder

Both append operations try again after the buffer has been doubled, as often as it takes. On a
growable builder that satisfies its representation invariant (`GrowableInv`) the loops come to an
end, write inside the buffer as it is at that time, keep what was written before, and restore the
invariant (`retry_loops_restore`).

The loops of the model have a counter. `appendRetry_mono` and `appendValueRetry_mono`: once a loop
has ended, it runs in the same way with a larger one.
-/

namespace Backtracie

open CMem Traced

variable {junk : ℕ → UInt8} {cat val : Bytes} {rounds : ℕ} {str str' : Strbuilder}
  {tr : List Access}

/-! ## The representation invariant -/

/-- The write offset of a growable builder is inside its buffer, a NUL stands there, and it is what
has been appended so far. -/
structure GrowableInv (str : Strbuilder) : Prop where
  growable : str.growable = true
  bufsize_pos : 1 ≤ str.originalBufsize
  length : str.originalBuf.length = str.originalBufsize
  offset_lt : str.currPtr < str.originalBufsize
  nul : str.originalBuf[str.currPtr]? = some 0
  attempted : str.attemptedSize = str.currPtr

/-- The text is what stands below the write offset. -/
theorem GrowableInv.grows (h : GrowableInv str) :
    Grows (str.originalBuf.take str.currPtr) str := by
  have hlt : str.currPtr < str.originalBuf.length := h.length ▸ h.offset_lt
  have hlen : (str.originalBuf.take str.currPtr).length = str.currPtr := by
    rw [List.length_take, Nat.min_eq_left hlt.le]
  have hnul : str.originalBuf[str.currPtr] = 0 := by
    have := h.nul
    rw [List.getElem?_eq_getElem hlt] at this
    exact Option.some.inj this
  refine ⟨h.growable, h.length, hlen.symm, h.attempted.trans hlen.symm,
    str.originalBuf.drop (str.currPtr + 1), ?_⟩
  rw [← hnul, List.getElem_cons_drop, List.take_append_drop]

theorem Grows.inv {text : Bytes} (h : Grows text str) : GrowableInv str := by
  obtain ⟨rest, hrest⟩ := h.content
  have hlt := h.lt_bufsize
  refine ⟨h.growable, by omega, h.bufsize, ?_, ?_, h.attempted.trans h.cursor.symm⟩
  · rw [h.cursor]
    exact hlt
  · rw [hrest, h.cursor, List.getElem?_append_right le_rfl, Nat.sub_self]
    rfl

/-! ## Loops with a larger counter -/

theorem appendRetry_mono (h : (strbuilderAppendRetry junk cat rounds str).Yields tr str') :
    (strbuilderAppendRetry junk cat (rounds + 1) str).Yields tr str' := by
  induction rounds generalizing str tr with
  | zero => cases h
  | succ rounds ih =>
    rw [strbuilderAppendRetry] at h ⊢
    obtain ⟨tr₁, n, tr', hsub, h', rfl⟩ := h.of_bind
    obtain ⟨tr₂, ⟨m, buf⟩, tr₃, hcat, hrest, rfl⟩ := h'.of_bind
    apply hsub.bind
    apply hcat.bind
    simp only at hrest ⊢
    split
    · next hfull =>
      rw [if_pos hfull] at hrest
      split
      · next hgrowable =>
        rw [if_pos hgrowable] at hrest
        exact ih hrest
      · next hfixed => rwa [if_neg hfixed] at hrest
    · next hroom => rwa [if_neg hroom] at hrest

theorem appendValueRetry_mono
    (h : (strbuilderAppendValueRetry junk val rounds str).Yields tr str') :
    (strbuilderAppendValueRetry junk val (rounds + 1) str).Yields tr str' := by
  induction rounds generalizing str tr with
  | zero => cases h
  | succ rounds ih =>
    rw [strbuilderAppendValueRetry] at h ⊢
    obtain ⟨tr₁, n, tr₂, hsub, hrest, rfl⟩ := h.of_bind
    apply hsub.bind
    split
    · next hfull =>
      rw [if_pos hfull] at hrest
      split
      · next hgrowable =>
        rw [if_pos hgrowable] at hrest
        exact ih hrest
      · next hfixed => rwa [if_neg hfixed] at hrest
    · next hroom => rwa [if_neg hroom] at hrest

/-- An append whose loop is given a number of rounds. -/
def strbuilderAppendRounds (junk : ℕ → UInt8) (rounds : ℕ) (str : Strbuilder) :
    Piece → Comp Strbuilder
  | .append cat => strbuilderAppendRetry junk cat rounds str
  | .appendValue none => fault (.abort "RB_TYPE_P(val, T_STRING)")
  | .appendValue (some val) => strbuilderAppendValueRetry junk val rounds str

theorem appendPiece_eq_rounds (p : Piece) :
    strbuilderAppendPiece junk str p =
      strbuilderAppendRounds junk (retryRounds p.text.length) str p := by
  rcases p with cat | _ | val <;> rfl

/-- More rounds than an append is given do not change its run. -/
theorem appendRounds_of_le {p : Piece} (h : (strbuilderAppendPiece junk str p).Yields tr str')
    (hle : retryRounds p.text.length ≤ rounds) :
    (strbuilderAppendRounds junk rounds str p).Yields tr str' := by
  rw [appendPiece_eq_rounds] at h
  induction rounds, hle using Nat.le_induction with
  | base => exact h
  | succ rounds _ ih =>
    rcases p with cat | _ | val
    · exact appendRetry_mono ih
    · exact ih
    · exact appendValueRetry_mono ih

/-! ## What the loops do -/

/-- **The retry loops end and restore the invariant.** From every growable builder that satisfies
the invariant, the append of every piece ends, with as many rounds as one likes from some number
on; the buffer has been doubled finitely often, all writes were inside the buffer as it was at that
time, the bytes below the old offset are as before, and the invariant holds again. So it holds
after every sequence of appends to a fresh builder. -/
theorem retry_loops_restore (junk : ℕ → UInt8) :
    (∀ (str : Strbuilder) (p : Piece), GrowableInv str → p.Proper → ∃ tr str' j,
      (strbuilderAppendPiece junk str p).Yields tr str' ∧
      (∀ rounds, retryRounds p.text.length ≤ rounds →
        (strbuilderAppendRounds junk rounds str p).Yields tr str') ∧
      str'.originalBufsize = str.originalBufsize * 2 ^ j ∧
      (∀ a ∈ tr, a.Ok) ∧
      str'.originalBuf.take str.currPtr = str.originalBuf.take str.currPtr ∧
      GrowableInv str') ∧
    ∀ (size : ℕ) (pieces : List Piece), 1 ≤ size → (∀ p ∈ pieces, p.Proper) →
      ∃ tr str, (growPieces junk size pieces).Yields tr str ∧ (∀ a ∈ tr, a.Ok) ∧
        GrowableInv str := by
  constructor
  · intro str p h hp
    have hgrows := h.grows
    obtain ⟨dup, b', -, -, -, hadds⟩ := appendPiece_adds hp h.offset_lt
    obtain ⟨j, hj⟩ := hadds.doublings
    obtain ⟨tr, str', hy, hok, hgrows', hb'⟩ := hadds.run junk _ str hgrows.cursor.symm
      (retries_nil_iff.2 hgrows) rfl
    obtain ⟨rest, hrest⟩ := hgrows'.content
    refine ⟨tr, str', j, hy, fun rounds hle => appendRounds_of_le hy hle, hb'.trans hj, hok, ?_,
      hgrows'.inv⟩
    rw [hrest, List.append_assoc]
    exact List.take_left' hgrows.cursor.symm
  · intro size pieces hsize hproper
    obtain ⟨text, -, -, hrun⟩ := growPieces_iff hsize hproper
    obtain ⟨tr, str, hy, hok, hgrows⟩ := hrun junk
    exact ⟨tr, str, hy, hok, hgrows.inv⟩

/-- A literal of seven bytes, appended to a builder of one byte, and to a fresh one. -/
theorem retry_loops_restore_oneByte :
    (∃ tr str' j, (strbuilderAppendPiece (fun _ => 1)
        { originalBuf := [0], currPtr := 0, originalBufsize := 1, attemptedSize := 0,
          growable := true } (.append (lit "{block}"))).Yields tr str' ∧
      str'.originalBufsize = 1 * 2 ^ j ∧ GrowableInv str') ∧
    ∃ tr str, (growPieces (fun _ => 1) 1 [.append (lit "{block}")]).Yields tr str ∧
      GrowableInv str := by
  have hproper : (Piece.append (lit "{block}")).Proper :=
    show NulFree (lit "{block}") by decide
  constructor
  · obtain ⟨tr, str', j, hy, -, hj, -, -, hinv⟩ := (retry_loops_restore (fun _ => 1)).1
      { originalBuf := [0], currPtr := 0, originalBufsize := 1, attemptedSize := 0,
        growable := true } _ ⟨rfl, le_rfl, rfl, Nat.zero_lt_one, rfl, rfl⟩ hproper
    exact ⟨tr, str', j, hy, hj, hinv⟩
  · obtain ⟨tr, str, hy, -, hinv⟩ := (retry_loops_restore (fun _ => 1)).2 1
      [.append (lit "{block}")] le_rfl (by simpa using hproper)
    exact ⟨tr, str, hy, hinv⟩

end Backtracie
