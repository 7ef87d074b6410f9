import Backtracie.StrbuilderFixed
import Backtracie.StrbuilderGrowable
import Backtracie.Foundations.FirstAlong

/-!
# Formatted appends

`strbuilder_appendf`, the third append operation of `strbuilder.c`, which the extension does not
call itself. It goes by what `vsnprintf` returns, which writes at the write position whatever stands
there: nothing that an earlier round has left behind does harm, unlike in `strbuilder_append`. But
the list of arguments is not copied, and a round after the first passes on a list that `vsnprintf`
has consumed.

* `mixed_appends_iff`: on a buffer of fixed size there is only one round. The three operations
  together keep to the contract of `snprintf` exactly when those on Ruby strings do.
* `appendf_grows_iff`: a growable builder holds the formatted text in the end exactly when the
  arguments format to it in the first round that has room for what they format to.
-/

namespace Backtracie

open CMem Traced

/-- `vsnprintf(buf + pos, n, fmt, fmtargs)`, where the arguments format to `text`. -/
def vsnprintf (buf : Bytes) (pos n : ℕ) (text : Bytes) : Comp (ℕ × Bytes) :=
  if n = 0 then pure (text.length, buf)
  else do
    let buf ← store buf pos (text.take (n - 1) ++ [0])
    pure (text.length, buf)

section

variable (junk : ℕ → UInt8)

/-- The loop of `strbuilder_appendf`, from round `i` on, in which the arguments format to
`texts i`. -/
def strbuilderAppendfRetry (texts : ℕ → Bytes) : ℕ → ℕ → Strbuilder → Comp Strbuilder
  | 0, _, _ => fault .hang
  | rounds + 1, i, str => do
    let maxWritesize ← sizeSub str.originalBufsize str.currPtr
    let (attemptedWritesize, buf) ← vsnprintf str.originalBuf str.currPtr maxWritesize (texts i)
    let str := { str with originalBuf := buf }
    if attemptedWritesize ≥ maxWritesize then
      if str.growable then
        strbuilderAppendfRetry texts rounds (i + 1) (strbuilderGrow junk str)
      else
        pure { str with
          currPtr := str.originalBufsize
          attemptedSize := str.attemptedSize + attemptedWritesize }
    else
      pure { str with
        currPtr := str.currPtr + attemptedWritesize
        attemptedSize := str.attemptedSize + attemptedWritesize }

/-- `strbuilder_appendf`, with as many rounds of its loop as given. -/
def strbuilderAppendf (texts : ℕ → Bytes) (rounds : ℕ) (str : Strbuilder) : Comp Strbuilder :=
  strbuilderAppendfRetry junk texts rounds 0 str

/-- One append to a builder, by any of the three operations. -/
inductive MixedAppend
  | piece (p : Piece)
  | appendf (texts : ℕ → Bytes)

/-- An append: in a buffer of fixed size one round of `strbuilder_appendf` is enough. -/
def strbuilderAppendMixed (str : Strbuilder) : MixedAppend → Comp Strbuilder
  | .piece p => strbuilderAppendPiece junk str p
  | .appendf texts => strbuilderAppendf junk texts 1 str

/-- A sequence of appends to the caller's buffer, and what is left to the caller. -/
def writeMixed (buf : Bytes) (appends : List MixedAppend) : Comp (ℕ × Bytes) := do
  let str ← strbuilderInit buf buf.length
  let str ← fold (strbuilderAppendMixed junk) str appends
  pure str.contents

end

/-! ## One round -/

section

variable {junk : ℕ → UInt8} {texts : ℕ → Bytes} {str str' : Strbuilder} {buf : Bytes}
  {tr tr' : List Access} {rounds i m : ℕ}

/-- `vsnprintf` over what follows `pre`. -/
theorem vsnprintf_yields (pre : Bytes) {rest : Bytes} (text : Bytes) (hm : 0 < m)
    (hroom : m ≤ rest.length) :
    (vsnprintf (pre ++ rest) pre.length m text).Yields
      [.write pre.length ((text.take (m - 1)).length + 1) (pre ++ rest).length]
      (text.length, pre ++ ((text.take (m - 1) ++ [0]) ++
        rest.drop ((text.take (m - 1)).length + 1))) := by
  have hcut := List.length_take_le (m - 1) text
  have hold : (rest.take ((text.take (m - 1)).length + 1)).length =
      (text.take (m - 1) ++ [0]).length := by
    rw [List.length_take, List.length_append, List.length_singleton]
    omega
  have hstore := store_append pre _ _ (rest.drop ((text.take (m - 1)).length + 1)) hold
  rw [List.take_append_drop, List.length_append, List.length_singleton] at hstore
  rw [vsnprintf, if_neg hm.ne']
  exact hstore.bind (f := fun buf => pure (text.length, buf)) (Yields.pure _)

/-- The last round when the text fits. -/
theorem appendfRetry_fits (hle : str.currPtr ≤ str.originalBufsize)
    (hprint : (vsnprintf str.originalBuf str.currPtr (str.originalBufsize - str.currPtr)
      (texts i)).Yields tr (m, buf)) (hm : m < str.originalBufsize - str.currPtr) :
    (strbuilderAppendfRetry junk texts (rounds + 1) i str).Yields
      ([.sub str.originalBufsize str.currPtr] ++ (tr ++ []))
      { str with originalBuf := buf, currPtr := str.currPtr + m,
                 attemptedSize := str.attemptedSize + m } := by
  refine (sizeSub_of_le hle).bind (hprint.bind ?_)
  simp only [ge_iff_le, if_neg (Nat.not_le.2 hm)]
  exact Yields.pure _

/-- The round that cuts the text off, in a builder of fixed size. -/
theorem appendfRetry_cut (hle : str.currPtr ≤ str.originalBufsize) (hfixed : str.growable = false)
    (hprint : (vsnprintf str.originalBuf str.currPtr (str.originalBufsize - str.currPtr)
      (texts i)).Yields tr (m, buf)) (hm : str.originalBufsize - str.currPtr ≤ m) :
    (strbuilderAppendfRetry junk texts (rounds + 1) i str).Yields
      ([.sub str.originalBufsize str.currPtr] ++ (tr ++ []))
      { str with originalBuf := buf, currPtr := str.originalBufsize,
                 attemptedSize := str.attemptedSize + m } := by
  refine (sizeSub_of_le hle).bind (hprint.bind ?_)
  simp only [ge_iff_le, if_pos hm, hfixed]
  exact Yields.pure _

/-- A round that grows the buffer is followed by the next. -/
theorem appendfRetry_grow (hle : str.currPtr ≤ str.originalBufsize) (hgrow : str.growable = true)
    (hprint : (vsnprintf str.originalBuf str.currPtr (str.originalBufsize - str.currPtr)
      (texts i)).Yields tr (m, buf)) (hm : str.originalBufsize - str.currPtr ≤ m) :
    strbuilderAppendfRetry junk texts (rounds + 1) i str =
      ⟨[.sub str.originalBufsize str.currPtr] ++ tr, .ok ()⟩ >>= fun _ =>
        strbuilderAppendfRetry junk texts rounds (i + 1)
          (strbuilderGrow junk { str with originalBuf := buf }) := by
  have hround : sizeSub str.originalBufsize str.currPtr =
      ⟨[.sub str.originalBufsize str.currPtr], .ok (str.originalBufsize - str.currPtr)⟩ :=
    sizeSub_of_le hle
  rw [strbuilderAppendfRetry, hround, mk_ok_bind, hprint, mk_ok_bind, mk_ok_bind]
  simp only [ge_iff_le, if_pos hm, hgrow, if_true, List.append_assoc]

end

/-! ## A buffer of fixed size -/

namespace MixedAppend

/-- The bytes an append stands for. -/
def text : MixedAppend → Bytes
  | .piece p => p.text
  | .appendf texts => texts 0

/-- A piece is a C string or a Ruby string; a formatted text may be any. -/
def Proper : MixedAppend → Prop
  | .piece p => p.Proper
  | .appendf _ => True

end MixedAppend

/-- The concatenation of the appends. -/
def mixedText (appends : List MixedAppend) : Bytes := appends.flatMap MixedAppend.text

/-- Every Ruby string of the sequence comes before `n` bytes of text have been appended, when `k`
bytes were there at the start. -/
def MixedFitFrom (n k : ℕ) (appends : List MixedAppend) : Prop :=
  ∀ before val after, appends = before ++ .piece (.appendValue val) :: after →
    k + (mixedText before).length < n

section

variable {n : ℕ} {text s : Bytes} {str : Strbuilder} (junk : ℕ → UInt8)

/-- A formatted append to a buffer with room for at least a byte. -/
theorem appendf_holds_of_lt (h : Holds n text str) (hlt : text.length < n) (texts : ℕ → Bytes) :
    ∃ tr str', (strbuilderAppendf junk texts 1 str).Yields tr str' ∧ (∀ a ∈ tr, a.Inside n) ∧
      Holds n (text ++ texts 0) str' := by
  obtain ⟨rest, hrest, hbuf⟩ := h.buf_of_lt hlt
  have hprint := @vsnprintf_yields (n - text.length) text (0 :: rest) (texts 0)
    (Nat.sub_pos_of_lt hlt) (by rw [List.length_cons]; omega)
  rw [← hbuf, h.length, List.drop_succ_cons, ← List.append_assoc] at hprint
  have hcut := List.length_take_le (n - text.length - 1) (texts 0)
  have hin : ∀ a ∈ [Access.sub n text.length] ++
      ([.write text.length (((texts 0).take (n - text.length - 1)).length + 1) n] ++ []),
      a.Inside n := by
    simp only [List.append_nil, List.cons_append, List.nil_append, List.mem_cons,
      List.not_mem_nil, or_false]
    rintro a (rfl | rfl) <;> simp only [Access.Inside] <;> omega
  rw [h.eq_mk, Nat.min_eq_left hlt.le]
  by_cases hfit : (texts 0).length < n - text.length
  · refine ⟨_, _, appendfRetry_fits hlt.le hprint hfit, hin, holds_written hlt hrest ?_⟩
    simp only [List.length_append]
    omega
  · refine ⟨_, _, appendfRetry_cut hlt.le rfl hprint (Nat.not_lt.1 hfit), hin,
      holds_written hlt hrest ?_⟩
    simp only [List.length_append]
    omega

/-- A formatted append to a buffer without room writes nothing. -/
theorem appendf_holds_of_le (h : Holds n text str) (hn : n ≤ text.length) (texts : ℕ → Bytes) :
    ∃ tr str', (strbuilderAppendf junk texts 1 str).Yields tr str' ∧ (∀ a ∈ tr, a.Inside n) ∧
      Holds n (text ++ texts 0) str' := by
  have hprint : (vsnprintf str.originalBuf n (n - n) (texts 0)).Yields []
      ((texts 0).length, str.originalBuf) := by
    rw [vsnprintf, if_pos (Nat.sub_self n)]
    exact Yields.pure _
  rw [h.eq_mk, Nat.min_eq_right hn]
  refine ⟨_, _, appendfRetry_cut le_rfl rfl hprint (by simp), ?_, rfl, rfl, h.length, ?_, ?_,
    fun hpos => ?_⟩
  · simp [Access.Inside]
  · simp
  · simp only [List.length_append]
    omega
  · obtain ⟨rest, hrest⟩ := h.content hpos
    exact ⟨rest, by rw [List.take_append_of_le_length (by omega), hrest]⟩

/-- **A formatted append** keeps to the contract in every state. -/
theorem appendf_holds (h : Holds n text str) (texts : ℕ → Bytes) :
    ∃ tr str', (strbuilderAppendf junk texts 1 str).Yields tr str' ∧ (∀ a ∈ tr, a.Inside n) ∧
      Holds n (text ++ texts 0) str' := by
  rcases Nat.lt_or_ge text.length n with hlt | hge
  · exact appendf_holds_of_lt junk h hlt texts
  · exact appendf_holds_of_le junk h hge texts

/-- One append, from a state that holds the text before it. -/
theorem appendMixed_holds {op : MixedAppend} (hop : op.Proper) (h : Holds n text str)
    (hfit : ∀ val, op = .piece (.appendValue val) → text.length < n) :
    ∃ tr str', (strbuilderAppendMixed junk str op).Yields tr str' ∧ (∀ a ∈ tr, a.Inside n) ∧
      Holds n (text ++ op.text) str' := by
  cases op with
  | piece p =>
    apply appendPiece_holds junk hop h
    intro val hp
    exact hfit val (congrArg MixedAppend.piece hp)
  | appendf texts => exact appendf_holds junk h texts

theorem mixedFitFrom_cons {k : ℕ} {op : MixedAppend} {ops : List MixedAppend} :
    MixedFitFrom n k (op :: ops) ↔
      (∀ val, op = .piece (.appendValue val) → k < n) ∧
        MixedFitFrom n (k + op.text.length) ops := by
  constructor
  · intro h
    refine ⟨fun val hop => by simpa [mixedText] using h [] val ops (by simp [hop]),
      fun before val after hops => ?_⟩
    have hlt := h (op :: before) val after (by simp [hops])
    rw [mixedText, List.flatMap_cons, List.length_append] at hlt
    rw [mixedText]
    omega
  · rintro ⟨hop, hops⟩ before val after h
    cases before with
    | nil =>
      obtain ⟨rfl, -⟩ := List.cons.inj h
      simpa [mixedText] using hop val rfl
    | cons q before =>
      obtain ⟨rfl, hrest⟩ := List.cons.inj h
      have hlt := hops before val after hrest
      rw [mixedText] at hlt
      rw [mixedText, List.flatMap_cons, List.length_append]
      omega

/-- The appends that keep to the contract. -/
theorem appendMixeds_holds {ops : List MixedAppend} (hproper : ∀ op ∈ ops, op.Proper)
    (hfit : MixedFitFrom n text.length ops) (h : Holds n text str) :
    ∃ tr str', (fold (strbuilderAppendMixed junk) str ops).Yields tr str' ∧
      (∀ a ∈ tr, a.Inside n) ∧ Holds n (text ++ mixedText ops) str' := by
  induction ops generalizing text str with
  | nil => exact ⟨[], str, Yields.pure str, by simp, by simpa [mixedText] using h⟩
  | cons op ops ih =>
    obtain ⟨hop, hops⟩ := mixedFitFrom_cons.1 hfit
    obtain ⟨tr, str₁, hy, hin, h₁⟩ :=
      appendMixed_holds junk (hproper op List.mem_cons_self) h hop
    rw [← List.length_append] at hops
    obtain ⟨tr', str₂, hy', hin', h₂⟩ :=
      ih (fun q hq => hproper q (List.mem_cons_of_mem op hq)) hops h₁
    refine ⟨tr ++ tr', str₂, hy.bind hy', fun a ha => ?_, ?_⟩
    · rcases List.mem_append.1 ha with ha | ha
      · exact hin a ha
      · exact hin' a ha
    · rwa [List.append_assoc] at h₂

/-- The appends that do not: the first Ruby string that meets a text without room for it ends them
with a write outside the buffer. -/
theorem appendMixeds_wild {ops : List MixedAppend} (hproper : ∀ op ∈ ops, op.Proper)
    (hfit : ¬MixedFitFrom n text.length ops) (h : Holds n text str) :
    (fold (strbuilderAppendMixed junk) str ops).result =
      .error (.wild n (sizeModulus - 1) n) := by
  induction ops generalizing text str with
  | nil =>
    refine absurd (fun before val after hnil => ?_) hfit
    simp at hnil
  | cons op ops ih =>
    rw [fold_cons]
    by_cases hop : ∀ val, op = .piece (.appendValue val) → text.length < n
    · obtain ⟨tr, str', hy, -, h'⟩ :=
        appendMixed_holds junk (hproper op List.mem_cons_self) h hop
      rw [hy, mk_ok_bind]
      refine ih (fun q hq => hproper q (List.mem_cons_of_mem op hq)) (fun hops => hfit ?_) h'
      rw [List.length_append] at hops
      exact mixedFitFrom_cons.2 ⟨hop, hops⟩
    · simp only [not_forall, Nat.not_lt] at hop
      obtain ⟨val, rfl, hge⟩ := hop
      obtain ⟨s, rfl⟩ := Option.isSome_iff_exists.1
        (hproper (.piece (.appendValue val)) List.mem_cons_self)
      rw [strbuilderAppendMixed, strbuilderAppendPiece, appendValue_wild junk h hge,
        mk_error_bind]

/-- **The three append operations on a buffer of fixed size**: every sequence of them is handled as
`snprintf` would if and only if each Ruby string in it comes before the text has reached the size
of the buffer. Formatted text may come at any time. -/
theorem mixed_appends_iff (buf : Bytes) (ops : List MixedAppend)
    (hproper : ∀ op ∈ ops, op.Proper) :
    SnprintfContract buf.length (mixedText ops) (writeMixed junk buf ops) ↔
      MixedFitFrom buf.length 0 ops := by
  obtain ⟨tr₀, str₀, hinit, hin₀, h₀⟩ := holds_init buf
  rw [writeMixed, hinit, mk_ok_bind]
  constructor
  · rintro ⟨-, b, hres, -⟩
    by_contra hfit
    have hwild := appendMixeds_wild junk hproper hfit h₀
    rw [bind_error hwild] at hres
    cases hres
  · intro hfit
    obtain ⟨tr, str, hy, hin, h⟩ := appendMixeds_holds junk hproper hfit h₀
    rw [List.nil_append] at h
    rw [hy]
    refine ⟨fun a ha => ?_, str.originalBuf, ?_, h.cut⟩
    · simp only [mk_ok_bind, pure_trace, List.append_nil, List.mem_append] at ha
      rcases ha with ha | ha
      · exact hin₀ a ha
      · exact hin a ha
    · show Except.ok (str.attemptedSize, str.originalBuf) = _
      rw [h.attempted]

end

/-- A formatted append that is cut off, and one to a buffer that is full. -/
theorem mixed_appends_iff_three_bytes :
    SnprintfContract 3 (lit "C12#5") (writeMixed (fun _ => 0) [1, 1, 1]
      [.piece (.appendValue (lit "C")), .appendf fun _ => lit "12", .piece (.append (lit "#")),
        .appendf fun _ => lit "5"]) := by
  refine (mixed_appends_iff (fun _ => 0) [1, 1, 1]
    [.piece (.appendValue (lit "C")), .appendf fun _ => lit "12", .piece (.append (lit "#")),
      .appendf fun _ => lit "5"] ?_).2 ?_
  · simp only [List.mem_cons, List.not_mem_nil, or_false]
    rintro op (rfl | rfl | rfl | rfl)
    · rfl
    · trivial
    · show NulFree (lit "#")
      decide
    · trivial
  · refine mixedFitFrom_cons.2 ⟨fun _ _ => by decide, ?_⟩
    refine mixedFitFrom_cons.2 ⟨fun _ h => (by cases h), ?_⟩
    refine mixedFitFrom_cons.2 ⟨fun _ h => (by cases h), ?_⟩
    refine mixedFitFrom_cons.2 ⟨fun _ h => (by cases h), ?_⟩
    intro before val after h
    cases before <;> cases h

/-! ## A growable builder -/

/-- A growable builder in the middle of a formatted append: behind the text may stand anything. -/
structure StandsAt (text : Bytes) (str : Strbuilder) : Prop where
  growable : str.growable = true
  bufsize : str.originalBuf.length = str.originalBufsize
  cursor : str.currPtr = text.length
  attempted : str.attemptedSize = text.length
  room : text.length < str.originalBufsize
  content : ∃ rest, str.originalBuf = text ++ rest

/-- The round that follows, with the size of the buffer. -/
def nextRound (round : ℕ × ℕ) : ℕ × ℕ := (round.1 + 1, round.2 * 2)

/-- In the round there is room for what the arguments format to, behind a text of that length. -/
def HasRoom (texts : ℕ → Bytes) (len : ℕ) (round : ℕ × ℕ) : Prop :=
  len + (texts round.1).length < round.2

section

variable {texts : ℕ → Bytes} {text text' : Bytes} {str str' : Strbuilder} {i rounds : ℕ}
  {round last : ℕ × ℕ} (junk : ℕ → UInt8)

theorem Grows.standsAt (h : Grows text str) : StandsAt text str where
  growable := h.growable
  bufsize := h.bufsize
  cursor := h.cursor
  attempted := h.attempted
  room := h.lt_bufsize
  content := h.content.imp' (0 :: ·) fun _ hrest => hrest

theorem Grows.text_unique (h : Grows text str) (h' : Grows text' str) : text = text' := by
  obtain ⟨rest, hrest⟩ := h.content
  obtain ⟨rest', hrest'⟩ := h'.content
  have hlen : text.length = text'.length := h.cursor.symm.trans h'.cursor
  exact (List.append_inj (hrest.symm.trans hrest') hlen).1

/-- What `vsnprintf` does in a round. -/
theorem StandsAt.print (h : StandsAt text str) (s : Bytes) :
    ∃ buf, buf.length = str.originalBuf.length ∧
      (vsnprintf str.originalBuf str.currPtr (str.originalBufsize - str.currPtr) s).Yields
        [.write text.length ((s.take (str.originalBufsize - text.length - 1)).length + 1)
          str.originalBufsize] (s.length, buf) ∧
      ∃ rest, buf = text ++ (s.take (str.originalBufsize - text.length - 1) ++ 0 :: rest) := by
  obtain ⟨rest, hrest⟩ := h.content
  have hlen := h.bufsize
  rw [hrest, List.length_append] at hlen
  have hroom := h.room
  have hcut := List.length_take_le (str.originalBufsize - text.length - 1) s
  have hprint := @vsnprintf_yields (str.originalBufsize - text.length) text rest s
    (by omega) (by omega)
  rw [← hrest, h.bufsize] at hprint
  rw [h.cursor]
  refine ⟨_, ?_, hprint, _, by rw [List.append_assoc]; rfl⟩
  rw [hrest]
  simp only [List.length_append, List.length_drop, List.length_singleton]
  omega

/-- The last round. -/
theorem StandsAt.fits (h : StandsAt text str)
    (hroom : HasRoom texts text.length (i, str.originalBufsize)) (rounds : ℕ) :
    ∃ tr str', (strbuilderAppendfRetry junk texts (rounds + 1) i str).Yields tr str' ∧
      (∀ a ∈ tr, a.Ok) ∧ Grows (text ++ texts i) str' := by
  have hlt : text.length + (texts i).length < str.originalBufsize := hroom
  obtain ⟨buf, hlen, hprint, rest, hbuf⟩ := h.print (texts i)
  have hall : (texts i).take (str.originalBufsize - text.length - 1) = texts i :=
    List.take_of_length_le (by omega)
  rw [hall] at hprint hbuf
  have hle : str.currPtr ≤ str.originalBufsize := h.cursor.trans_le h.room.le
  refine ⟨_, _, appendfRetry_fits hle hprint (by rw [h.cursor]; omega), ?_, h.growable,
    hlen.trans h.bufsize, ?_, ?_, rest, by rw [hbuf, List.append_assoc]⟩
  · simp only [List.append_nil, List.cons_append, List.nil_append, List.mem_cons,
      List.not_mem_nil, or_false]
    rintro a (rfl | rfl)
    · exact hle
    · simp only [Access.Ok]
      omega
  · rw [List.length_append, h.cursor]
  · rw [List.length_append, h.attempted]

/-- Any other round: the next one finds the text where it was, in a buffer of twice the size. -/
theorem StandsAt.grow (h : StandsAt text str)
    (hroom : ¬HasRoom texts text.length (i, str.originalBufsize)) :
    ∃ tr str', StandsAt text str' ∧ str'.originalBufsize = str.originalBufsize * 2 ∧
      (∀ a ∈ tr, a.Ok) ∧ ∀ rounds, strbuilderAppendfRetry junk texts (rounds + 1) i str =
        ⟨tr, .ok ()⟩ >>= fun _ => strbuilderAppendfRetry junk texts rounds (i + 1) str' := by
  have hge : str.originalBufsize ≤ text.length + (texts i).length := Nat.not_lt.1 hroom
  obtain ⟨buf, hlen, hprint, rest, hbuf⟩ := h.print (texts i)
  have hle : str.currPtr ≤ str.originalBufsize := h.cursor.trans_le h.room.le
  obtain ⟨new, -, hnew⟩ := realloc_eq_append junk
    (show buf.length ≤ str.originalBufsize * 2 by rw [hlen, h.bufsize]; omega)
  refine ⟨_, strbuilderGrow junk { str with originalBuf := buf },
    ⟨h.growable, length_realloc .., h.cursor, h.attempted, ?_, ?_⟩, rfl, ?_,
    fun rounds => appendfRetry_grow hle h.growable hprint (by rw [h.cursor]; omega)⟩
  · show text.length < str.originalBufsize * 2
    have hlt := h.room
    omega
  · refine ⟨(texts i).take (str.originalBufsize - text.length - 1) ++ 0 :: rest ++ new, ?_⟩
    show realloc junk buf (str.originalBufsize * 2) = _
    rw [hnew, hbuf, List.append_assoc, List.append_assoc]
  · have hlt := h.room
    have hcut := List.length_take_le (str.originalBufsize - text.length - 1) (texts i)
    simp only [List.cons_append, List.nil_append, List.mem_cons, List.not_mem_nil, or_false]
    rintro a (rfl | rfl)
    · exact hle
    · simp only [Access.Ok]
      omega

/-- **The rounds of a formatted append**: by induction on the search for the first that has room. -/
theorem appendfRetry_grows (hfirst : FirstAlong nextRound (HasRoom texts text.length) round last)
    (h : StandsAt text str) (hsize : str.originalBufsize = round.2) :
    ∃ N, ∀ rounds, N ≤ rounds → ∃ tr str',
      (strbuilderAppendfRetry junk texts rounds round.1 str).Yields tr str' ∧
      (∀ a ∈ tr, a.Ok) ∧ Grows (text ++ texts last.1) str' := by
  induction hfirst generalizing str with
  | @here round hroom =>
    refine ⟨1, fun rounds hrounds => ?_⟩
    obtain ⟨rounds, rfl⟩ := Nat.exists_eq_add_of_le' hrounds
    obtain ⟨i, size⟩ := round
    obtain rfl : str.originalBufsize = size := hsize
    exact h.fits junk hroom rounds
  | @step round last hroom _ ih =>
    obtain ⟨i, size⟩ := round
    obtain rfl : str.originalBufsize = size := hsize
    obtain ⟨tr, str₁, h₁, hsize₁, hok, hround⟩ := h.grow junk hroom
    obtain ⟨N, hN⟩ := ih h₁ hsize₁
    refine ⟨N + 1, fun rounds hrounds => ?_⟩
    obtain ⟨rounds, rfl⟩ := Nat.exists_eq_add_of_le' (Nat.le_trans (Nat.le_add_left 1 N) hrounds)
    obtain ⟨tr', str', hy, hok', hgrows⟩ := hN rounds (Nat.le_of_succ_le_succ hrounds)
    refine ⟨tr ++ tr', str', ?_, fun a ha => ?_, hgrows⟩
    · rw [hround]
      exact Yields.bind rfl hy
    · rcases List.mem_append.1 ha with ha | ha
      · exact hok a ha
      · exact hok' a ha

/-- A run that ends has found a round with room. -/
theorem firstRoom_of_ok (h : StandsAt text str)
    (hres : (strbuilderAppendfRetry junk texts rounds i str).result = .ok str') :
    ∃ last, FirstAlong nextRound (HasRoom texts text.length) (i, str.originalBufsize) last := by
  induction rounds generalizing i str with
  | zero => cases hres
  | succ rounds ih =>
    by_cases hroom : HasRoom texts text.length (i, str.originalBufsize)
    · exact ⟨_, .here hroom⟩
    · obtain ⟨tr, str₁, h₁, hsize₁, -, hround⟩ := h.grow junk hroom
      rw [hround, mk_ok_bind] at hres
      obtain ⟨last, hlast⟩ := ih h₁ hres
      rw [hsize₁] at hlast
      exact ⟨last, .step hroom hlast⟩

/-- **A formatted append to a growable builder** ends with the formatted text behind the text before
it, all writes in bounds, if and only if there is a round that has room for what the arguments
format to in it, and in the first such round they format as in the first round of all. -/
theorem appendf_grows_iff (texts : ℕ → Bytes) (text : Bytes) (str : Strbuilder)
    (h : Grows text str) :
    (∃ N, ∀ rounds, N ≤ rounds → ∃ tr str',
        (strbuilderAppendf junk texts rounds str).Yields tr str' ∧ (∀ a ∈ tr, a.Ok) ∧
        Grows (text ++ texts 0) str') ↔
      ∃ last, FirstAlong nextRound (HasRoom texts text.length) (0, str.originalBufsize) last ∧
        texts last.1 = texts 0 := by
  constructor
  · rintro ⟨N, hN⟩
    obtain ⟨tr, str₁, hy, -, -⟩ := hN N le_rfl
    obtain ⟨last, hlast⟩ := firstRoom_of_ok junk h.standsAt hy.result
    obtain ⟨M, hM⟩ := appendfRetry_grows junk hlast h.standsAt rfl
    obtain ⟨_, str₂, hy₂, -, hgrows₂⟩ := hN (N + M) (Nat.le_add_right N M)
    obtain ⟨_, str₃, hy₃, -, hgrows₃⟩ := hM (N + M) (Nat.le_add_left M N)
    obtain rfl : str₂ = str₃ := Except.ok.inj (hy₂.result.symm.trans hy₃.result)
    exact ⟨last, hlast, List.append_cancel_left (hgrows₃.text_unique hgrows₂)⟩
  · rintro ⟨last, hlast, hsame⟩
    obtain ⟨N, hN⟩ := appendfRetry_grows junk hlast h.standsAt rfl
    rw [hsame] at hN
    exact ⟨N, hN⟩

end

/-- Three bytes do not fit in a buffer of two, and do in one of four. -/
theorem appendf_grows_iff_two_bytes :
    ∃ str, str.originalBufsize = 2 ∧ ∃ N, ∀ rounds, N ≤ rounds → ∃ tr str',
      (strbuilderAppendf (fun _ => 0) (fun _ => lit "abc") rounds str).Yields tr str' ∧
      (∀ a ∈ tr, a.Ok) ∧ Grows (lit "abc") str' := by
  obtain ⟨_, str, -, -, hgrows, hsize⟩ := grows_init (fun _ => 0) (Nat.succ_pos 1)
  refine ⟨str, hsize, (appendf_grows_iff (fun _ => 0) (fun _ => lit "abc") [] str hgrows).2
    ⟨(1, 4), ?_, rfl⟩⟩
  rw [hsize]
  exact .step (show ¬3 < 2 by decide) (.here (show 3 < 4 by decide))

end Backtracie
