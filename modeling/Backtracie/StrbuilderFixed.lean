import Backtracie.Strbuilder
import Mathlib.Tactic.Common

/-!
# The builder of fixed size

What a sequence of appends leaves in a buffer of `n` bytes. `Holds n text str` says that `str`
is a builder of size `n` that was given `text` so far: it keeps the first `n - 1` bytes of the
text and a NUL, its write position is the end of the text or, once the text does not fit, one
past the end of the buffer, and its attempted size is the length of the whole text.

* `append_holds`: a C string can be appended in every such state;
* `appendValue_holds`: so can a Ruby string, if the text so far fits in the buffer;
* `appendValue_wild`: if it does not, no room is left, `max_writesize - 1` wraps around, and the
  copy leaves the buffer.

Hence a sequence of appends is handled as `snprintf` would exactly when every Ruby string in it
comes before the text reaches `n` bytes (`ValuesFit`, `snprintf_iff_valuesFit`).
-/

namespace Backtracie

open CMem Traced

/-- `str` is a builder on a buffer of `n` bytes that was given `text`. -/
structure Holds (n : ℕ) (text : Bytes) (str : Strbuilder) : Prop where
  fixed : str.growable = false
  bufsize : str.originalBufsize = n
  length : str.originalBuf.length = n
  attempted : str.attemptedSize = text.length
  cursor : str.currPtr = min text.length n
  content : 1 ≤ n → ∃ rest, str.originalBuf = text.take (n - 1) ++ 0 :: rest

variable {n : ℕ} {text s : Bytes} {str : Strbuilder}

/-- While the text fits, the buffer is the text, its NUL and what is not used yet. -/
theorem Holds.buf_of_lt (h : Holds n text str) (hlt : text.length < n) :
    ∃ rest : Bytes, rest.length = n - text.length - 1 ∧ str.originalBuf = text ++ 0 :: rest := by
  obtain ⟨rest, hrest⟩ := h.content (by omega)
  rw [List.take_of_length_le (by omega)] at hrest
  refine ⟨rest, ?_, hrest⟩
  have hlen := h.length
  rw [hrest, List.length_append, List.length_cons] at hlen
  omega

theorem holds_init (buf : Bytes) :
    ∃ tr str, (strbuilderInit buf buf.length).Yields tr str ∧ (∀ a ∈ tr, a.Inside buf.length) ∧
      Holds buf.length [] str := by
  rcases buf with _ | ⟨b, bs⟩
  · exact ⟨[], _, rfl, by simp, rfl, rfl, rfl, rfl, rfl, by simp⟩
  · have hstore : (store (b :: bs) 0 [0]).Yields [.write 0 1 (b :: bs).length] (0 :: bs) :=
      store_yields (by simp)
    refine ⟨_, _, Yields.bind hstore (Yields.pure _), ?_, rfl, rfl, ?_, rfl, ?_, ?_⟩
    · simp [Access.Inside]
    · simp
    · simp
    · exact fun _ => ⟨bs, by simp⟩

/-! ## A piece while the text still fits -/

/-- The buffer after as much of `s` as there is room for was written behind the text. -/
def written (n : ℕ) (text s rest : Bytes) : Bytes :=
  text ++ (s.take (n - text.length - 1) ++ [0]) ++ rest.drop (s.take (n - text.length - 1)).length

theorem length_written {rest : Bytes} (hlt : text.length < n)
    (hrest : rest.length = n - text.length - 1) : (written n text s rest).length = n := by
  simp only [written, List.length_append, List.length_take, List.length_drop, List.length_cons,
    List.length_nil]
  omega

/-- The state both append operations leave behind. -/
theorem holds_written {rest : Bytes} (hlt : text.length < n)
    (hrest : rest.length = n - text.length - 1) {p : ℕ} (hp : p = min (text ++ s).length n) :
    Holds n (text ++ s)
      { originalBuf := written n text s rest, currPtr := p, originalBufsize := n,
        attemptedSize := text.length + s.length, growable := false } := by
  refine ⟨rfl, rfl, length_written hlt hrest, by simp, hp, fun _ => ?_⟩
  refine ⟨rest.drop (s.take (n - text.length - 1)).length, ?_⟩
  rw [List.take_append, List.take_of_length_le (by omega : text.length ≤ n - 1),
    show n - 1 - text.length = n - text.length - 1 by omega, written]
  simp

theorem Holds.eq_mk (h : Holds n text str) :
    str = { originalBuf := str.originalBuf, currPtr := min text.length n, originalBufsize := n,
            attemptedSize := text.length, growable := false } := by
  obtain ⟨h₁, h₂, -, h₄, h₅, -⟩ := h
  cases str
  simp_all

variable (junk : ℕ → UInt8)

/-- **Appending a C string** keeps to the contract in every state. -/
theorem append_holds (h : Holds n text str) (hs : NulFree s) :
    ∃ tr str', (strbuilderAppend junk str s).Yields tr str' ∧ (∀ a ∈ tr, a.Inside n) ∧
      Holds n (text ++ s) str' := by
  rw [h.eq_mk]
  by_cases hlt : text.length < n
  · obtain ⟨rest, hrest, hbuf⟩ := h.buf_of_lt hlt
    rw [Nat.min_eq_left hlt.le]
    have hcat : (strlcat str.originalBuf text.length s (n - text.length)).Yields
        [.write text.length ((s.take (n - text.length - 1)).length + 1) n]
        (s.length, written n text s rest) := by
      rw [written, List.append_assoc]
      have := strlcat_nul_yields text rest hs (Nat.sub_pos_of_lt hlt) (by omega)
      rwa [← hbuf, h.length] at this
    have hcut := List.length_take_le (n - text.length - 1) s
    have hin : ∀ a ∈ [Access.sub n text.length] ++
        ([.write text.length ((s.take (n - text.length - 1)).length + 1) n] ++ []),
        a.Inside n := by
      simp only [List.append_nil, List.cons_append, List.nil_append, List.mem_cons,
        List.not_mem_nil, or_false]
      rintro a (rfl | rfl) <;> simp only [Access.Inside] <;> omega
    by_cases hfit : s.length < n - text.length
    · refine ⟨_, _, appendRetry_fits hlt.le hcat hfit, hin, holds_written hlt hrest ?_⟩
      simp only [List.length_append]
      omega
    · refine ⟨_, _, appendRetry_cut hlt.le rfl hcat (Nat.not_lt.1 hfit), hin,
        holds_written hlt hrest ?_⟩
      simp only [List.length_append]
      omega
  · have hn : n ≤ text.length := Nat.not_lt.1 hlt
    rw [Nat.min_eq_right hn]
    have hcat : (strlcat str.originalBuf n s (n - n)).Yields [] (s.length, str.originalBuf) := by
      have := strlcat_zero str.originalBuf n s
      rwa [cstr_of_nulFree hs, ← Nat.sub_self n] at this
    refine ⟨_, _, appendRetry_cut le_rfl rfl hcat (by simp), ?_, rfl, rfl, h.length, ?_, ?_,
      fun hpos => ?_⟩
    · simp [Access.Inside]
    · simp
    · simp only [List.length_append]
      omega
    · obtain ⟨rest, hrest⟩ := h.content hpos
      exact ⟨rest, by rw [List.take_append_of_le_length (by omega), hrest]⟩

/-- The copy of as much of the Ruby string as there is room for. -/
theorem copyValue_written {rest : Bytes} {k : ℕ} (h : Holds n text str) (hlt : text.length < n)
    (hrest : rest.length = n - text.length - 1) (hbuf : str.originalBuf = text ++ 0 :: rest)
    (hk : k = (s.take (n - text.length - 1)).length) :
    (strbuilderCopyValue s (n - text.length) k str).Yields
      ([.write text.length k n] ++ ([.write (text.length + k) 1 n] ++ []))
      { originalBuf := written n text s rest
        currPtr := if s.length + 1 > n - text.length then n else text.length + s.length
        originalBufsize := n
        attemptedSize := text.length + s.length
        growable := false } := by
  have hcursor : str.currPtr = text.length := by rw [h.cursor, Nat.min_eq_left hlt.le]
  have hcut := List.length_take_le (n - text.length - 1) s
  have hroom : k < (0 :: rest : Bytes).length := by
    rw [List.length_cons]
    omega
  have hle : k ≤ s.length := hk.trans_le (List.length_take_le' _ _)
  have htext : text ++ (s.take k ++ 0 :: (0 :: rest : Bytes).drop (k + 1)) =
      written n text s rest := by
    have htake : s.take k = s.take (n - text.length - 1) := by
      rw [hk, List.length_take, List.take_eq_take_iff]
      omega
    rw [written, List.drop_succ_cons, htake, ← hk]
    simp
  have hcopy := @copyValue_yields s str text (0 :: rest) k (n - text.length) hbuf hcursor hroom hle
  rw [htext, hcursor, h.length, h.bufsize, h.attempted, h.fixed] at hcopy
  exact hcopy

/-- **Appending a Ruby string** keeps to the contract while there is room for the NUL. -/
theorem appendValue_holds (h : Holds n text str) (hlt : text.length < n) (s : Bytes) :
    ∃ tr str', (strbuilderAppendValue junk str (some s)).Yields tr str' ∧
      (∀ a ∈ tr, a.Inside n) ∧ Holds n (text ++ s) str' := by
  obtain ⟨rest, hrest, hbuf⟩ := h.buf_of_lt hlt
  have hcut := List.length_take_le (n - text.length - 1) s
  have hcopy := fun k => copyValue_written (s := s) (k := k) h hlt hrest hbuf
  have hwritten := holds_written (s := s) hlt hrest
    (p := if s.length + 1 > n - text.length then n else text.length + s.length) (by
      simp only [List.length_append]
      split <;> omega)
  rw [h.eq_mk, Nat.min_eq_left hlt.le] at *
  by_cases hfit : s.length + 1 ≤ n - text.length
  · refine ⟨_, _, appendValueRetry_fits hlt.le hfit (hcopy _ ?_), ?_, hwritten⟩
    · rw [List.take_of_length_le (by omega)]
    · simp only [List.append_nil, List.cons_append, List.nil_append, List.mem_cons,
        List.not_mem_nil, or_false]
      rintro a (rfl | rfl | rfl) <;> simp only [Access.Inside] <;> omega
  · have hk : n - text.length - 1 = (s.take (n - text.length - 1)).length := by
      rw [List.length_take]
      omega
    have hround := fun rounds => @appendValueRetry_cut junk s
      { originalBuf := str.originalBuf, currPtr := text.length, originalBufsize := n,
        attemptedSize := text.length, growable := false } _ rounds _ hlt.le rfl
      (Nat.not_le.1 hfit) (sizeSub_of_le (Nat.sub_pos_of_lt hlt))
    rw [(hcopy _ hk).result, (hcopy _ hk).trace] at hround
    refine ⟨_, _, hround _, ?_, hwritten⟩
    simp only [List.append_nil, List.cons_append, List.nil_append, List.mem_cons,
      List.not_mem_nil, or_false]
    rintro a (rfl | rfl | rfl | rfl) <;> simp only [Access.Inside] <;> omega

/-- **Without room for the NUL** the size of the copy wraps around, and `memcpy` is asked to write
that many bytes behind the end of the buffer. -/
theorem appendValue_wild (h : Holds n text str) (hge : n ≤ text.length) (s : Bytes) :
    strbuilderAppendValue junk str (some s) =
      ⟨[.sub n n, .sub 0 1, .write n (sizeModulus - 1) n],
        .error (.wild n (sizeModulus - 1) n)⟩ := by
  have hbig := one_lt_sizeModulus
  have hcut := @appendValueRetry_cut junk s str [.sub 0 1] (s.length + 1) (sizeModulus - 1)
  have hwild := @copyValue_wild s str (sizeModulus - 1) 0
  rw [h.cursor, h.bufsize, Nat.min_eq_right hge, Nat.sub_self] at hcut
  rw [h.cursor, h.length, Nat.min_eq_right hge] at hwild
  rw [strbuilderAppendValue, retryRounds,
    hcut le_rfl h.fixed (Nat.zero_lt_succ _) sizeSub_zero_one, hwild (by omega)]
  rfl

/-! ## Sequences of appends -/

/-- Every Ruby string of the sequence comes before `n` bytes of text have been appended, when `k`
bytes were there at the start. -/
def ValuesFitFrom (n k : ℕ) (pieces : List Piece) : Prop :=
  ∀ before val after, pieces = before ++ .appendValue val :: after →
    k + (textOf before).length < n

/-- Every Ruby string of the sequence comes before `n` bytes of text have been appended. -/
def ValuesFit (n : ℕ) (pieces : List Piece) : Prop :=
  ∀ before val after, pieces = before ++ .appendValue val :: after → (textOf before).length < n

theorem valuesFitFrom_zero {pieces : List Piece} :
    ValuesFitFrom n 0 pieces ↔ ValuesFit n pieces := by
  simp only [ValuesFitFrom, ValuesFit, Nat.zero_add]

theorem valuesFitFrom_cons {k : ℕ} {p : Piece} {ps : List Piece} :
    ValuesFitFrom n k (p :: ps) ↔
      (∀ val, p = .appendValue val → k < n) ∧ ValuesFitFrom n (k + p.text.length) ps := by
  constructor
  · intro h
    refine ⟨fun val hp => ?_, fun before val after hps => ?_⟩
    · simpa using h [] val ps (by simp [hp])
    · have := h (p :: before) val after (by simp [hps])
      rw [textOf_cons, List.length_append] at this
      omega
  · rintro ⟨hp, hps⟩ before val after h
    rcases before with _ | ⟨q, before⟩
    · obtain ⟨rfl, -⟩ := List.cons.inj h
      simpa using hp val rfl
    · obtain ⟨rfl, rest⟩ := List.cons.inj h
      have := hps before val after rest
      rw [textOf_cons, List.length_append]
      omega

/-- What `snprintf` into the `n` bytes of a buffer would do with `text`: nothing is written
outside the buffer and no size wraps around; the buffer holds what fits of the text and a NUL, and
the size of the whole text is reported. -/
def SnprintfContract (n : ℕ) (text : Bytes) (run : Comp (ℕ × Bytes)) : Prop :=
  (∀ a ∈ run.trace, a.Inside n) ∧ ∃ buf, run.result = .ok (text.length, buf) ∧
    (1 ≤ n → buf.take (min (n - 1) text.length + 1) = text.take (n - 1) ++ [0])

/-- One piece, from a state that holds the text before it. -/
theorem appendPiece_holds {p : Piece} (hp : p.Proper) (h : Holds n text str)
    (hfit : ∀ val, p = .appendValue val → text.length < n) :
    ∃ tr str', (strbuilderAppendPiece junk str p).Yields tr str' ∧ (∀ a ∈ tr, a.Inside n) ∧
      Holds n (text ++ p.text) str' := by
  cases p with
  | append cat => exact append_holds junk h hp
  | appendValue val =>
    obtain ⟨s, rfl⟩ := Option.isSome_iff_exists.1 hp
    exact appendValue_holds junk h (hfit _ rfl) s

/-- **The pieces that keep to the contract**: from a state that holds the text before them, the
sequence is appended to the end if every Ruby string in it meets a text that fits. -/
theorem appendPieces_holds {pieces : List Piece} (hproper : ∀ p ∈ pieces, p.Proper)
    (hfit : ValuesFitFrom n text.length pieces) (h : Holds n text str) :
    ∃ tr str', (strbuilderAppendPieces junk str pieces).Yields tr str' ∧ (∀ a ∈ tr, a.Inside n) ∧
      Holds n (text ++ textOf pieces) str' := by
  refine fold_spec (fun done str => Holds n (text ++ textOf done) str)
    (fun done p rest s hs has => ?_) [] (List.nil_append _) (by simpa using h)
  obtain ⟨tr, s', hy, hin, hs'⟩ := appendPiece_holds junk (hproper p (by simp [← has])) hs
    (fun val hp => by
      rw [List.length_append]
      exact hfit done val rest (by rw [← has, hp]))
  exact ⟨tr, s', hy, hin, by simpa using hs'⟩

/-- **The pieces that do not**: the first Ruby string that meets a text without room for it ends
the sequence with a write outside the buffer. -/
theorem appendPieces_wild {pieces : List Piece} (hproper : ∀ p ∈ pieces, p.Proper)
    (hfit : ¬ ValuesFitFrom n text.length pieces) (h : Holds n text str) :
    (strbuilderAppendPieces junk str pieces).result = .error (.wild n (sizeModulus - 1) n) := by
  induction pieces generalizing text str with
  | nil =>
    refine absurd (fun before val after hnil => ?_) hfit
    simp at hnil
  | cons p ps ih =>
    rw [strbuilderAppendPieces, fold_cons]
    by_cases hp : ∀ val, p = .appendValue val → text.length < n
    · obtain ⟨tr, str', hy, -, hs'⟩ := appendPiece_holds junk (hproper p (by simp)) h hp
      rw [hy, mk_ok_bind]
      refine ih (fun q hq => hproper q (by simp [hq])) (fun hps => hfit ?_) hs'
      rw [List.length_append] at hps
      exact valuesFitFrom_cons.2 ⟨hp, hps⟩
    · simp only [not_forall, Nat.not_lt] at hp
      obtain ⟨val, rfl, hge⟩ := hp
      obtain ⟨s, rfl⟩ := Option.isSome_iff_exists.1 (hproper (.appendValue val) (by simp))
      rw [strbuilderAppendPiece, appendValue_wild junk h hge, mk_error_bind]

theorem Holds.cut (h : Holds n text str) (hn : 1 ≤ n) :
    str.originalBuf.take (min (n - 1) text.length + 1) = text.take (n - 1) ++ [0] := by
  obtain ⟨rest, hrest⟩ := h.content hn
  rw [hrest, ← List.length_take, List.take_append, List.take_of_length_le (by omega)]
  simp

/-- The appends to a builder on the caller's buffer, and what is left to the caller. -/
def writePieces (buf : Bytes) (pieces : List Piece) : Comp (ℕ × Bytes) := do
  let str ← strbuilderInit buf buf.length
  let str ← strbuilderAppendPieces junk str pieces
  pure str.contents

/-- **A builder on the caller's buffer keeps to the contract of `snprintf` exactly when every Ruby
string comes before the text has reached the size of the buffer.** -/
theorem snprintf_iff_valuesFit (buf : Bytes) {pieces : List Piece}
    (hproper : ∀ p ∈ pieces, p.Proper) :
    SnprintfContract buf.length (textOf pieces) (writePieces junk buf pieces) ↔
      ValuesFit buf.length pieces := by
  obtain ⟨tr₀, str₀, hinit, hin₀, h₀⟩ := holds_init buf
  rw [writePieces, hinit, mk_ok_bind, ← valuesFitFrom_zero]
  constructor
  · rintro ⟨-, b, hres, -⟩
    by_contra hfit
    have hwild := appendPieces_wild junk hproper hfit h₀
    rw [bind_error hwild] at hres
    cases hres
  · intro hfit
    obtain ⟨tr, str, hy, hin, h⟩ := appendPieces_holds junk hproper hfit h₀
    rw [List.nil_append] at h
    rw [hy]
    refine ⟨fun a ha => ?_, str.originalBuf, ?_, h.cut⟩
    · simp only [mk_ok_bind, pure_trace, List.append_nil, List.mem_append] at ha
      rcases ha with ha | ha
      · exact hin₀ a ha
      · exact hin a ha
    · rw [← h.attempted]
      rfl

/-! ## Buffers that are large enough -/

/-- The run returns the length of the text and leaves the text in the buffer, with a NUL behind. -/
def LeavesText (text : Bytes) (run : Comp (ℕ × Bytes)) : Prop :=
  ∃ buf, run.result = .ok (text.length, buf) ∧ buf.take (text.length + 1) = text ++ [0]

theorem LeavesText.unique {text text' : Bytes} {run : Comp (ℕ × Bytes)} (h : LeavesText text run)
    (h' : LeavesText text' run) : text = text' := by
  obtain ⟨buf, hres, htext⟩ := h
  obtain ⟨buf', hres', htext'⟩ := h'
  rw [hres] at hres'
  obtain ⟨hlen, rfl⟩ := Prod.mk.inj (Except.ok.inj hres')
  rw [← hlen, htext] at htext'
  exact List.append_cancel_right htext'

/-- **A buffer with room for the whole text** and its NUL holds them. -/
theorem writePieces_leavesText {pieces : List Piece} (hproper : ∀ p ∈ pieces, p.Proper)
    {buf : Bytes} (hbuf : (textOf pieces).length < buf.length) :
    LeavesText (textOf pieces) (writePieces junk buf pieces) := by
  have hfit : ValuesFit buf.length pieces := by
    rintro before val after rfl
    rw [textOf_append, List.length_append] at hbuf
    omega
  obtain ⟨-, buf', hres, hcut⟩ := (snprintf_iff_valuesFit junk buf hproper).2 hfit
  refine ⟨buf', hres, ?_⟩
  have hall : (textOf pieces).take (buf.length - 1) = textOf pieces :=
    List.take_of_length_le (by omega)
  have hhead := hcut (by omega)
  rwa [Nat.min_eq_right (by omega), hall] at hhead

end Backtracie
