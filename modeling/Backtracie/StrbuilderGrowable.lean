import Backtracie.Strbuilder
import Backtracie.Foundations.Doubling

/-!
# The growable builder

`Grows text str` says that `str` is a growable builder whose buffer holds `text` and a NUL, with
the write position at that NUL: the invariant of the two retry loops. From it every append ends
after finitely many doublings, writes inside the buffer as it is at that time, and restores it.

What an append does depends on the sizes alone, not on what fresh memory holds (`Adds`):

* `appendValue_adds`: a Ruby string is copied once the buffer is large enough, and nothing is
  written before;
* `append_adds`: a C string is written by `strlcat` in every round, so what an earlier round
  had room for stays in front of it.

So the text is the concatenation of the pieces exactly when no C string is cut off by a round
that had room for some of it (`CleanGrowth`, `faithful_iff_cleanGrowth`).
-/

namespace Backtracie

open CMem Traced Doubling

/-- `str` is a growable builder that holds `text`. -/
structure Grows (text : Bytes) (str : Strbuilder) : Prop where
  growable : str.growable = true
  bufsize : str.originalBuf.length = str.originalBufsize
  cursor : str.currPtr = text.length
  attempted : str.attemptedSize = text.length
  content : ∃ rest, str.originalBuf = text ++ 0 :: rest

/-- As `Grows`, in the middle of an append: behind the text stand the bytes `left` that earlier
rounds of the loop have written. -/
structure Retries (text left : Bytes) (str : Strbuilder) : Prop where
  growable : str.growable = true
  bufsize : str.originalBuf.length = str.originalBufsize
  cursor : str.currPtr = text.length
  attempted : str.attemptedSize = text.length
  leftFree : NulFree left
  content : ∃ rest, str.originalBuf = text ++ left ++ 0 :: rest

variable {text left s cat : Bytes} {str : Strbuilder} (junk : ℕ → UInt8)

theorem Grows.lt_bufsize (h : Grows text str) : text.length < str.originalBufsize := by
  obtain ⟨rest, hrest⟩ := h.content
  rw [← h.bufsize, hrest, List.length_append, List.length_cons]
  omega

theorem retries_nil_iff : Retries text [] str ↔ Grows text str := by
  constructor
  · intro h
    exact ⟨h.growable, h.bufsize, h.cursor, h.attempted, by simpa using h.content⟩
  · intro h
    exact ⟨h.growable, h.bufsize, h.cursor, h.attempted, nulFree_nil, by simpa using h.content⟩

theorem grows_init {size : ℕ} (hsize : 1 ≤ size) :
    ∃ tr str, (strbuilderInitGrowable junk size).Yields tr str ∧ (∀ a ∈ tr, a.Ok) ∧
      Grows [] str ∧ str.originalBufsize = size := by
  obtain ⟨b, bs, hbuf⟩ : ∃ b bs, malloc junk size = b :: bs :=
    List.exists_cons_of_length_pos (by rw [length_malloc]; exact hsize)
  have hlen := length_malloc junk size
  have hstore : (terminateEmpty (malloc junk size) size).Yields [.write 0 1 size] (0 :: bs) := by
    have := store_append [] [b] [0] bs rfl
    rw [List.nil_append, List.singleton_append, ← hbuf, hlen] at this
    rw [terminateEmpty, if_pos (Nat.lt_of_succ_le hsize)]
    exact this
  refine ⟨_, _, hstore.bind (Yields.pure _), ?_, ⟨rfl, ?_, rfl, rfl, bs, rfl⟩, rfl⟩
  · simpa [Access.Ok] using hsize
  · simpa [hbuf] using hlen

/-! ## Growing -/

theorem Retries.grow (h : Retries text left str) : Retries text left (strbuilderGrow junk str) := by
  obtain ⟨rest, hrest⟩ := h.content
  obtain ⟨new, -, hnew⟩ := realloc_eq_append junk
    (show str.originalBuf.length ≤ str.originalBufsize * 2 by rw [h.bufsize]; omega)
  refine ⟨h.growable, length_realloc .., h.cursor, h.attempted, h.leftFree, rest ++ new, ?_⟩
  rw [strbuilderGrow, hnew, hrest]
  simp

/-- What an append does to every growable builder of `b` bytes that holds `o` bytes of text, with
`left` behind it: it ends, with all writes in bounds, and puts `added` behind the text. The buffer
has `b'` bytes then, which is `b` doubled some number of times. -/
structure Adds (append : (ℕ → UInt8) → Strbuilder → Comp Strbuilder) (left : Bytes) (b o : ℕ)
    (added : Bytes) (b' : ℕ) : Prop where
  room : o + added.length < b'
  doublings : ∃ j, b' = b * 2 ^ j
  run : ∀ junk text str, text.length = o → Retries text left str → str.originalBufsize = b →
    ∃ tr str', (append junk str).Yields tr str' ∧ (∀ a ∈ tr, a.Ok) ∧ Grows (text ++ added) str' ∧
      str'.originalBufsize = b'

variable {b b' o rounds : ℕ} {added : Bytes}

/-- One append after another. -/
theorem Adds.bind {f g : (ℕ → UInt8) → Strbuilder → Comp Strbuilder} {added' : Bytes} {b'' : ℕ}
    (hf : Adds f [] b o added b') (hg : Adds g [] b' (o + added.length) added' b'') :
    Adds (fun junk str => f junk str >>= g junk) [] b o (added ++ added') b'' := by
  obtain ⟨j, hj⟩ := hf.doublings
  obtain ⟨j', hj'⟩ := hg.doublings
  refine ⟨?_, ⟨j + j', ?_⟩, ?_⟩
  · rw [List.length_append, ← Nat.add_assoc]
    exact hg.room
  · rw [hj', hj, pow_add, mul_assoc]
  · intro junk text str ho h hb
    obtain ⟨tr, str₁, hy, hok, hgrows, hb'⟩ := hf.run junk text str ho h hb
    obtain ⟨tr', str', hy', hok', hgrows', hb''⟩ := hg.run junk (text ++ added) str₁
      (by rw [List.length_append, ho]) (retries_nil_iff.2 hgrows) hb'
    refine ⟨tr ++ tr', str', hy.bind hy', ?_, by rwa [← List.append_assoc], hb''⟩
    intro a ha
    rcases List.mem_append.1 ha with ha | ha
    · exact hok a ha
    · exact hok' a ha

/-- No append at all. -/
theorem Adds.nil (hlt : o < b) : Adds (fun _ str => pure str) [] b o [] b := by
  refine ⟨hlt, ⟨0, by rw [pow_zero, mul_one]⟩, ?_⟩
  intro junk text str _ h hb
  exact ⟨[], str, Yields.pure str, by simp, by simpa using retries_nil_iff.1 h, hb⟩

/-! ## Ruby strings -/

/-- The round of `strbuilder_append_value` in which there is room. -/
theorem appendValueRetry_room (hfit : o + s.length < b) :
    Adds (fun junk => strbuilderAppendValueRetry junk s (rounds + 1)) [] b o s b := by
  refine ⟨hfit, ⟨0, by rw [pow_zero, mul_one]⟩, ?_⟩
  rintro junk text str rfl hr rfl
  have h := retries_nil_iff.1 hr
  obtain ⟨rest, hrest⟩ := h.content
  have hlen := h.bufsize
  rw [hrest, List.length_append, List.length_cons] at hlen
  have hfit' : s.length + 1 ≤ str.originalBufsize - text.length := by omega
  have hroom : s.length < (0 :: rest : Bytes).length := by
    rw [List.length_cons]
    omega
  have hcopy := @copyValue_yields s str text (0 :: rest) s.length
    (str.originalBufsize - str.currPtr) hrest h.cursor hroom le_rfl
  have hle : str.currPtr ≤ str.originalBufsize := by
    rw [h.cursor]
    exact h.lt_bufsize.le
  refine ⟨_, _, appendValueRetry_fits hle (by rw [h.cursor]; exact hfit') hcopy, ?_,
    ⟨h.growable, ?_, ?_, ?_, rest.drop s.length, ?_⟩, rfl⟩
  · rw [h.bufsize, h.cursor]
    simp only [List.append_nil, List.cons_append, List.nil_append, List.mem_cons,
      List.not_mem_nil, or_false]
    rintro a (rfl | rfl | rfl) <;> simp only [Access.Ok] <;> omega
  · simp only [List.take_length, List.length_append, List.length_cons, List.length_drop]
    omega
  · rw [h.cursor, if_neg (by omega), List.length_append]
  · rw [h.attempted, List.length_append]
  · simp

/-- A round of `strbuilder_append_value` without room: the others go on in a buffer twice as
large. -/
theorem appendValueRetry_full (hfull : b ≤ o + s.length)
    (h : Adds (fun junk => strbuilderAppendValueRetry junk s rounds) [] (b * 2) o added b') :
    Adds (fun junk => strbuilderAppendValueRetry junk s (rounds + 1)) [] b o added b' := by
  obtain ⟨j, hj⟩ := h.doublings
  refine ⟨h.room, ⟨j + 1, by rw [hj, mul_assoc, ← pow_succ']⟩, ?_⟩
  rintro junk text str rfl hr rfl
  have hcursor := hr.cursor
  have hlt := (retries_nil_iff.1 hr).lt_bufsize
  obtain ⟨tr, str', hy, hok, hgrows, hb'⟩ := h.run junk text _ rfl (hr.grow junk) rfl
  refine ⟨_, str', appendValueRetry_grow (by omega) hr.growable (by omega) hy, ?_, hgrows, hb'⟩
  simp only [List.singleton_append, List.mem_cons]
  rintro a (rfl | ha)
  · simp only [Access.Ok]
    omega
  · exact hok a ha

/-- **Appending a Ruby string**: the loop of `strbuilder_append_value` ends within `r + 1` rounds
when `r` doublings make room, with the buffer doubled as often as needed. -/
theorem appendValue_adds (r : ℕ) (hb : 0 < b) (hr : o + s.length < b * 2 ^ r) :
    Adds (fun junk => strbuilderAppendValueRetry junk s (r + 1)) [] b o s
      (doubled b (o + s.length)) := by
  induction r generalizing b with
  | zero =>
    rw [pow_zero, mul_one] at hr
    rw [doubled_of_lt hr]
    exact appendValueRetry_room hr
  | succ r ih =>
    by_cases hfit : o + s.length < b
    · rw [doubled_of_lt hfit]
      exact appendValueRetry_room hfit
    · have hfull := Nat.not_lt.1 hfit
      have hr' : o + s.length < b * 2 * 2 ^ r := by
        rwa [pow_succ', ← mul_assoc] at hr
      have hrest := ih (by omega) hr'
      rw [doubled_double hb hfull] at hrest
      exact appendValueRetry_full hfull hrest

/-! ## C strings -/

theorem Retries.rest_length (h : Retries text left str) {rest : Bytes}
    (hrest : str.originalBuf = text ++ left ++ 0 :: rest) :
    text.length + left.length + rest.length + 1 = str.originalBufsize := by
  rw [← h.bufsize, hrest]
  simp only [List.length_append, List.length_cons]
  omega

/-- What `strlcat` does in a round of the loop, with room for the beginning `chunk` of the piece. -/
theorem strlcat_retries (h : Retries text left str) (hcat : NulFree cat) {rest chunk : Bytes}
    (hrest : str.originalBuf = text ++ left ++ 0 :: rest)
    (hchunk : cat.take (str.originalBufsize - text.length - left.length - 1) = chunk) :
    (strlcat str.originalBuf str.currPtr cat (str.originalBufsize - str.currPtr)).Yields
      [.write (text.length + left.length) (chunk.length + 1) str.originalBufsize]
      (left.length + cat.length,
        text ++ left ++ ((chunk ++ [0]) ++ rest.drop chunk.length)) := by
  have hlen := h.rest_length hrest
  have := strlcat_yields text rest h.leftFree hcat
    (show left.length < str.originalBufsize - text.length by omega) (by omega)
  rw [h.cursor]
  rwa [← hrest, h.bufsize, hchunk] at this

/-- The round of `strbuilder_append` in which there is room. -/
theorem appendRetry_room (hcat : NulFree cat) (hfit : o + left.length + cat.length < b) :
    Adds (fun junk => strbuilderAppendRetry junk cat (rounds + 1)) left b o (left ++ cat) b := by
  refine ⟨by rwa [List.length_append, ← Nat.add_assoc], ⟨0, by rw [pow_zero, mul_one]⟩, ?_⟩
  rintro junk text str rfl h rfl
  obtain ⟨rest, hrest⟩ := h.content
  have hlen := h.rest_length hrest
  have hcursor := h.cursor
  have hy := strlcat_retries h hcat hrest (List.take_of_length_le (by omega))
  refine ⟨_, _, appendRetry_fits (by omega) hy (by omega), ?_,
    ⟨h.growable, ?_, ?_, ?_, rest.drop cat.length, ?_⟩, rfl⟩
  · simp only [List.append_nil, List.cons_append, List.nil_append, List.mem_cons,
      List.not_mem_nil, or_false]
    rintro a (rfl | rfl) <;> simp only [Access.Ok] <;> omega
  · simp only [List.length_append, List.length_cons, List.length_nil, List.length_drop]
    omega
  · simp only [List.length_append]
    omega
  · rw [h.attempted]
    simp only [List.length_append]
  · simp

/-- What stands behind `o` bytes of text in a buffer of `b` bytes after a round without room: behind
what earlier rounds have left, as much of the piece as there was room for. -/
def leftover (b o : ℕ) (left cat : Bytes) : Bytes := left ++ cat.take (b - o - left.length - 1)

theorem leftover_nulFree (hleft : NulFree left) (hcat : NulFree cat) :
    NulFree (leftover b o left cat) :=
  nulFree_append.2 ⟨hleft, hcat.take _⟩

/-- A round without room fills the buffer up to its last byte. -/
theorem length_leftover (hlt : o + left.length < b) (hfull : b ≤ o + left.length + cat.length) :
    o + (leftover b o left cat).length + 1 = b := by
  rw [leftover, List.length_append, List.length_take]
  omega

/-- What `strlcat` does in a round without room. -/
theorem Retries.fill (h : Retries text left str) (hcat : NulFree cat)
    (hfull : str.originalBufsize ≤ text.length + left.length + cat.length) :
    ∃ tr buf, (strlcat str.originalBuf str.currPtr cat
      (str.originalBufsize - str.currPtr)).Yields tr (left.length + cat.length, buf) ∧
      (∀ a ∈ tr, a.Ok) ∧ Retries text (leftover str.originalBufsize text.length left cat)
        { str with originalBuf := buf } := by
  obtain ⟨rest, hrest⟩ := h.content
  have hlen := h.rest_length hrest
  obtain ⟨chunk, hchunk⟩ : ∃ chunk,
      cat.take (str.originalBufsize - text.length - left.length - 1) = chunk := ⟨_, rfl⟩
  have hchunkLen : chunk.length = rest.length := by
    rw [← hchunk, List.length_take]
    omega
  have hy := strlcat_retries h hcat hrest hchunk
  rw [hchunkLen, List.drop_length, List.append_nil] at hy
  refine ⟨_, _, hy, ?_, ⟨h.growable, ?_, h.cursor, h.attempted,
    leftover_nulFree h.leftFree hcat, [], ?_⟩⟩
  · simp only [List.mem_singleton]
    rintro a rfl
    simp only [Access.Ok]
    omega
  · simp only [List.length_append, List.length_cons, List.length_nil]
    omega
  · rw [leftover, hchunk]
    simp

/-- **A round without room**: the others go on in a buffer twice as large, with the beginning of the
piece behind the text. -/
theorem appendRetry_full (hcat : NulFree cat) (hfull : b ≤ o + left.length + cat.length)
    (h : Adds (fun junk => strbuilderAppendRetry junk cat rounds) (leftover b o left cat) (b * 2) o
      added b') :
    Adds (fun junk => strbuilderAppendRetry junk cat (rounds + 1)) left b o added b' := by
  obtain ⟨j, hj⟩ := h.doublings
  refine ⟨h.room, ⟨j + 1, by rw [hj, mul_assoc, ← pow_succ']⟩, ?_⟩
  rintro junk text str rfl hr rfl
  have hcursor := hr.cursor
  obtain ⟨rest, hrest⟩ := hr.content
  have hlen := hr.rest_length hrest
  have hsub : (Access.sub str.originalBufsize str.currPtr).Ok := by
    simp only [Access.Ok]
    omega
  obtain ⟨tr₁, buf, hy₁, hok₁, h₁⟩ := hr.fill hcat hfull
  obtain ⟨tr, str', hy, hok, hgrows, hb'⟩ := h.run junk text _ rfl (h₁.grow junk) rfl
  refine ⟨_, str', appendRetry_grow hsub hr.growable hy₁ (by omega) hy, ?_, hgrows, hb'⟩
  intro a ha
  simp only [List.singleton_append, List.mem_cons, List.mem_append] at ha
  rcases ha with rfl | ha | ha
  · exact hsub
  · exact hok₁ a ha
  · exact hok a ha

/-- How the loop of `strbuilder_append` ends on a piece of `len` bytes, from a buffer of `b` bytes
with `o` bytes of text in it: with `dup` in front of the piece in a buffer of `b'` bytes. -/
inductive AppendOutcome (b o len : ℕ) (left dup : Bytes) (b' : ℕ) : Prop
  /-- The piece fits at once. -/
  | fits (hfit : o + left.length + len < b) (hdup : dup = left) (hb : b' = b)
  /-- It fits after one doubling, behind what the first round wrote. -/
  | once (hfull : b ≤ o + left.length + len) (hlen : len ≤ b) (hdup : o + dup.length + 1 = b)
      (hb : b' = b * 2)
  /-- More than one doubling is needed. -/
  | often (hfull : b ≤ o + left.length + len) (hlen : b < len) (hdup : b * 2 ≤ o + dup.length + 1)

/-- **Appending a C string**: the loop of `strbuilder_append` ends within `r + 2` rounds when `r`
doublings make the buffer as long as the piece. -/
theorem append_adds (r : ℕ) (hcat : NulFree cat) (hleft : NulFree left)
    (hlt : o + left.length < b) (hr : cat.length ≤ b * 2 ^ r) :
    ∃ dup b', NulFree dup ∧ AppendOutcome b o cat.length left dup b' ∧
      Adds (fun junk => strbuilderAppendRetry junk cat (r + 2)) left b o (dup ++ cat) b' := by
  induction r generalizing b left with
  | zero =>
    rw [pow_zero, mul_one] at hr
    by_cases hfit : o + left.length + cat.length < b
    · exact ⟨left, b, hleft, .fits hfit rfl rfl, appendRetry_room hcat hfit⟩
    · have hfull := Nat.not_lt.1 hfit
      have hlen := length_leftover hlt hfull
      refine ⟨leftover b o left cat, b * 2, leftover_nulFree hleft hcat,
        .once hfull hr hlen rfl, appendRetry_full hcat hfull ?_⟩
      exact appendRetry_room hcat (by omega)
  | succ r ih =>
    by_cases hfit : o + left.length + cat.length < b
    · exact ⟨left, b, hleft, .fits hfit rfl rfl, appendRetry_room hcat hfit⟩
    · have hfull := Nat.not_lt.1 hfit
      have hlen := length_leftover hlt hfull
      have hr' : cat.length ≤ b * 2 * 2 ^ r := by
        rwa [mul_assoc, ← pow_succ']
      have hleft' : NulFree (leftover b o left cat) := leftover_nulFree hleft hcat
      obtain ⟨dup, b', hdup, hout, hadds⟩ := ih hleft' (by omega) hr'
      refine ⟨dup, b', hdup, ?_, appendRetry_full hcat hfull hadds⟩
      cases hout with
      | fits hfit₁ hdup hb => exact .once hfull (by omega) (by rw [hdup]; exact hlen) hb
      | once hfull₁ _ hdup _ => exact .often hfull (by omega) (by omega)
      | often hfull₁ _ hdup => exact .often hfull (by omega) (by omega)

/-! ## Sequences of appends -/

/-- The piece ends up in one part when it is appended behind `k` bytes in a buffer of `b` bytes: a
C string fits at once, or all that is left is the byte of the NUL and one doubling is enough. -/
def CleanAt (b k : ℕ) : Piece → Prop
  | .append cat => k + cat.length < b ∨ k + 1 = b ∧ cat.length ≤ b
  | .appendValue _ => True

instance (b k : ℕ) : DecidablePred (CleanAt b k)
  | .append _ => inferInstanceAs (Decidable (_ ∨ _))
  | .appendValue _ => inferInstanceAs (Decidable True)

theorem AppendOutcome.clean_iff {b o b' : ℕ} {dup : Bytes}
    (h : AppendOutcome b o cat.length [] dup b') (ho : o < b) :
    dup = [] ↔ CleanAt b o (.append cat) := by
  rw [← List.length_eq_zero_iff, CleanAt]
  cases h with
  | fits hfit hdup hb => simp_all
  | once hfull hlen hdup hb =>
    rw [List.length_nil] at hfull
    omega
  | often hfull hlen hdup =>
    rw [List.length_nil] at hfull
    omega

theorem AppendOutcome.bufsize {b o b' : ℕ} (h : AppendOutcome b o cat.length [] [] b')
    (ho : o < b) : b' = doubled b (o + cat.length) := by
  cases h with
  | fits hfit hdup hb =>
    rw [hb]
    exact (doubled_of_lt hfit).symm
  | once hfull hlen hdup hb =>
    rw [List.length_nil, Nat.add_zero] at hfull hdup
    rw [hb, ← doubled_double (by omega) hfull]
    exact (doubled_of_lt (by omega)).symm
  | often hfull hlen hdup =>
    rw [List.length_nil] at hdup
    omega

/-- **One piece**: it is appended, behind a copy `dup` of its beginning unless the growth is
clean. -/
theorem appendPiece_adds {p : Piece} (hp : p.Proper) (hlt : o < b) :
    ∃ dup b', NulFree dup ∧ (dup = [] ↔ CleanAt b o p) ∧
      (dup = [] → b' = doubled b (o + p.text.length)) ∧
      Adds (fun junk str => strbuilderAppendPiece junk str p) [] b o (dup ++ p.text) b' := by
  cases p with
  | append cat =>
    have hr : cat.length ≤ b * 2 ^ cat.length :=
      (Nat.le_add_left _ _).trans (lt_mul_two_pow hlt).le
    obtain ⟨dup, b', hdup, hout, hadds⟩ := append_adds cat.length hp nulFree_nil hlt hr
    refine ⟨dup, b', hdup, hout.clean_iff hlt, ?_, hadds⟩
    rintro rfl
    exact hout.bufsize hlt
  | appendValue val =>
    obtain ⟨s, rfl⟩ := Option.isSome_iff_exists.1 hp
    have hr : o + s.length < b * 2 ^ (s.length + 1) :=
      (Nat.add_le_add_left (Nat.le_succ _) _).trans_lt (lt_mul_two_pow hlt)
    exact ⟨[], _, nulFree_nil, by simp [CleanAt], fun _ => rfl,
      appendValue_adds (s.length + 1) (Nat.zero_lt_of_lt hlt) hr⟩

/-- **Every sequence of appends comes to an end** with all writes in bounds, in a builder that
holds at least as many bytes as the pieces have. -/
theorem appendPieces_adds {pieces : List Piece} (hproper : ∀ p ∈ pieces, p.Proper) (hlt : o < b) :
    ∃ added b', (textOf pieces).length ≤ added.length ∧
      (NulFree (textOf pieces) → NulFree added) ∧
      Adds (fun junk str => strbuilderAppendPieces junk str pieces) [] b o added b' := by
  induction pieces generalizing o b with
  | nil => exact ⟨[], b, le_rfl, id, Adds.nil hlt⟩
  | cons p ps ih =>
    obtain ⟨dup, b₁, hdup, -, -, hp⟩ := appendPiece_adds (hproper p List.mem_cons_self) hlt
    obtain ⟨added, b', hle, hfree, hps⟩ :=
      ih (fun q hq => hproper q (List.mem_cons_of_mem p hq)) hp.room
    refine ⟨dup ++ p.text ++ added, b', ?_, fun hnul => ?_, hp.bind hps⟩
    · simp only [textOf_cons, List.length_append]
      omega
    · rw [textOf_cons, nulFree_append] at hnul
      exact nulFree_append.2 ⟨nulFree_append.2 ⟨hdup, hnul.1⟩, hfree hnul.2⟩

/-- No C string of the sequence is cut off by a round that had room for some of it, when `k`
bytes were there at the start and the buffer was doubled only for the text itself. -/
def CleanGrowthFrom (size k : ℕ) (pieces : List Piece) : Prop :=
  ∀ before p after, pieces = before ++ p :: after →
    CleanAt (doubled size (k + (textOf before).length)) (k + (textOf before).length) p

/-- Every C string of the sequence fits behind the text before it, in a buffer of `size` bytes
doubled as often as that text needs; or that text and its NUL fill the buffer, and the string fits
after one more doubling. -/
def CleanGrowth (size : ℕ) (pieces : List Piece) : Prop :=
  ∀ before cat after, pieces = before ++ .append cat :: after →
    (textOf before).length + cat.length < doubled size (textOf before).length ∨
      (textOf before).length + 1 = doubled size (textOf before).length ∧
        cat.length ≤ doubled size (textOf before).length

theorem cleanGrowthFrom_zero {size : ℕ} {pieces : List Piece} :
    CleanGrowthFrom size 0 pieces ↔ CleanGrowth size pieces := by
  simp only [CleanGrowthFrom, CleanGrowth, Nat.zero_add]
  constructor
  · exact fun h before cat after hps => h before (.append cat) after hps
  · intro h before p after hps
    cases p with
    | append cat => exact h before cat after hps
    | appendValue val => trivial

theorem cleanGrowthFrom_cons {size k : ℕ} {p : Piece} {ps : List Piece} :
    CleanGrowthFrom size k (p :: ps) ↔
      CleanAt (doubled size k) k p ∧ CleanGrowthFrom size (k + p.text.length) ps := by
  constructor
  · intro h
    refine ⟨by simpa using h [] p ps rfl, fun before q after hps => ?_⟩
    have := h (p :: before) q after (by simp [hps])
    rwa [textOf_cons, List.length_append, ← Nat.add_assoc] at this
  · rintro ⟨hp, hps⟩ before q after h
    rcases before with _ | ⟨r, before⟩
    · obtain ⟨rfl, -⟩ := List.cons.inj h
      simpa using hp
    · obtain ⟨rfl, rest⟩ := List.cons.inj h
      rw [textOf_cons, List.length_append, ← Nat.add_assoc]
      exact hps before q after rest

/-- The text is what the pieces say exactly when the growth is clean: up to the first piece that
is not, the buffer has the size its text needs; from then on the text is too long. -/
theorem appendPieces_adds_iff {size : ℕ} (hsize : 0 < size) {pieces : List Piece}
    (hproper : ∀ p ∈ pieces, p.Proper) :
    ∃ added b', (NulFree (textOf pieces) → NulFree added) ∧
      (added = textOf pieces ↔ CleanGrowthFrom size o pieces) ∧
      Adds (fun junk str => strbuilderAppendPieces junk str pieces) [] (doubled size o) o added
        b' := by
  induction pieces generalizing o with
  | nil => exact ⟨[], _, id, by simp [CleanGrowthFrom], Adds.nil (lt_doubled hsize o)⟩
  | cons p ps ih =>
    have hps : ∀ q ∈ ps, q.Proper := fun q hq => hproper q (List.mem_cons_of_mem p hq)
    obtain ⟨dup, b₁, hdup, hclean, hbuf₁, hp⟩ :=
      appendPiece_adds (hproper p List.mem_cons_self) (lt_doubled hsize o)
    rw [cleanGrowthFrom_cons, textOf_cons]
    rcases eq_or_ne dup [] with rfl | hne
    · rw [List.nil_append] at hp
      obtain ⟨added, b', hfree, hiff, hrest⟩ := ih (o := o + p.text.length) hps
      rw [← doubled_doubled hsize (Nat.le_add_right o p.text.length), ← hbuf₁ rfl] at hrest
      refine ⟨p.text ++ added, b', fun hnul => ?_, ?_, hp.bind hrest⟩
      · rw [nulFree_append] at hnul ⊢
        exact ⟨hnul.1, hfree hnul.2⟩
      · rw [List.append_cancel_left_eq, hiff]
        exact ⟨fun hrest => ⟨hclean.1 rfl, hrest⟩, And.right⟩
    · obtain ⟨added, b', hle, hfree, hrest⟩ := appendPieces_adds hps hp.room
      have hpos := List.length_pos_of_ne_nil hne
      refine ⟨dup ++ p.text ++ added, b', fun hnul => ?_,
        iff_of_false (fun htext => ?_) fun hc => hne (hclean.2 hc.1), hp.bind hrest⟩
      · rw [nulFree_append] at hnul
        exact nulFree_append.2 ⟨nulFree_append.2 ⟨hdup, hnul.1⟩, hfree hnul.2⟩
      · have hlen := congrArg List.length htext
        simp only [List.length_append] at hlen
        omega

/-- The run builds the text: what it leaves is a builder that becomes a Ruby string of that text,
and that reports its length. -/
def FaithfulConcat (text : Bytes) (run : Comp Strbuilder) : Prop :=
  ∃ str, run.result = .ok str ∧
    (strbuilderToValue str).result = .ok { bytes := text, encoding := encAscii8bit } ∧
    str.attemptedSize = text.length

theorem Grows.toValue (h : Grows text str) : strbuilderToValue str = pure (rbStrNew2 text) := by
  obtain ⟨rest, hrest⟩ := h.content
  rw [strbuilderToValue, hrest, if_pos (by simp), rbStrNew2, rbStrNew2, cstr_append_cons_nul]

/-- The appends to a growable builder of `size` bytes. -/
def growPieces (size : ℕ) (pieces : List Piece) : Comp Strbuilder := do
  let str ← strbuilderInitGrowable junk size
  strbuilderAppendPieces junk str pieces

/-- **The text of a growable builder**: it does not depend on what fresh memory holds, and it is the
concatenation of the pieces exactly when the growth is clean. -/
theorem growPieces_iff {size : ℕ} (hsize : 1 ≤ size) {pieces : List Piece}
    (hproper : ∀ p ∈ pieces, p.Proper) :
    ∃ text, (NulFree (textOf pieces) → NulFree text) ∧
      (text = textOf pieces ↔ CleanGrowth size pieces) ∧
      ∀ junk, ∃ tr str, (growPieces junk size pieces).Yields tr str ∧ (∀ a ∈ tr, a.Ok) ∧
        Grows text str := by
  obtain ⟨text, b', hfree, hiff, hadds⟩ := appendPieces_adds_iff (o := 0) hsize hproper
  refine ⟨text, hfree, hiff.trans cleanGrowthFrom_zero, fun junk => ?_⟩
  obtain ⟨tr₀, str₀, hinit, hok₀, h₀, hbuf⟩ := grows_init junk hsize
  obtain ⟨tr, str, hy, hok, hg, -⟩ := hadds.run junk [] str₀ rfl (retries_nil_iff.2 h₀)
    (by rw [hbuf, doubled_of_lt hsize])
  refine ⟨_, str, hinit.bind hy, fun a ha => ?_, hg⟩
  rcases List.mem_append.1 ha with ha | ha
  · exact hok₀ a ha
  · exact hok a ha

/-- **A growable builder concatenates the pieces exactly when the growth is clean.** -/
theorem faithful_iff_cleanGrowth {size : ℕ} (hsize : 1 ≤ size) {pieces : List Piece}
    (hproper : ∀ p ∈ pieces, p.Proper) (hfree : NulFree (textOf pieces)) :
    FaithfulConcat (textOf pieces) (growPieces junk size pieces) ↔ CleanGrowth size pieces := by
  obtain ⟨text', hfree', hiff, hrun⟩ := growPieces_iff hsize hproper
  obtain ⟨tr, str', hy, -, hg⟩ := hrun junk
  have hval : strbuilderToValue str' = pure { bytes := text', encoding := encAscii8bit } := by
    rw [hg.toValue, rbStrNew2, cstr_of_nulFree (hfree' hfree)]
  rw [← hiff, hy]
  constructor
  · rintro ⟨str, hres, hto, -⟩
    obtain rfl : str' = str := Except.ok.inj hres
    rw [hval] at hto
    exact congrArg RString.bytes (Except.ok.inj hto)
  · rintro rfl
    exact ⟨str', rfl, by rw [hval]; rfl, hg.attempted⟩

end Backtracie
