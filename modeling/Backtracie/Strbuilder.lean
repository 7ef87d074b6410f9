import Backtracie.Ruby
import Mathlib.Tactic.Common

/-!
# The string builder

The builder of `strbuilder.c`: a byte buffer with a write position, either of fixed size, where
what does not fit is cut off, or growable, where the buffer is doubled and the append retried.
The two append operations do their own arithmetic on the shared state: `strbuilderAppend` goes by
the return value of `strlcat`, `strbuilderAppendValue` by the length of the Ruby string.

The functions that write names, labels and paths use a builder only through these two operations,
so what they do to it is a list of `Piece`s (`strbuilderAppendPieces`).
-/

namespace Backtracie

open CMem Traced

/-- `strbuilder_t`, with `curr_ptr` as its offset in `original_buf`. -/
structure Strbuilder where
  originalBuf : Bytes
  currPtr : ℕ
  originalBufsize : ℕ
  attemptedSize : ℕ
  growable : Bool
  deriving DecidableEq

/-- `str->original_buf[0] = '\0'`, when there is such a byte. -/
def terminateEmpty (buf : Bytes) (bufsize : ℕ) : Comp Bytes :=
  if bufsize > 0 then store buf 0 [0] else pure buf

/-- A builder on the `bufsize` bytes `buf` of the caller. -/
def strbuilderInit (buf : Bytes) (bufsize : ℕ) : Comp Strbuilder := do
  let buf ← terminateEmpty buf bufsize
  pure { originalBuf := buf, currPtr := 0, originalBufsize := bufsize, attemptedSize := 0,
         growable := false }

section

variable (junk : ℕ → UInt8)

/-- A builder on a buffer of its own. -/
def strbuilderInitGrowable (initialBufsize : ℕ) : Comp Strbuilder := do
  let buf ← terminateEmpty (malloc junk initialBufsize) initialBufsize
  pure { originalBuf := buf, currPtr := 0, originalBufsize := initialBufsize, attemptedSize := 0,
         growable := true }

/-- `strbuilder_free_growable`: only a growable builder owns its buffer. -/
def strbuilderFreeGrowable (str : Strbuilder) : Comp Unit :=
  if str.growable then pure () else fault (.abort "str->growable")

/-- `strbuilder_grow`: the buffer is reallocated with twice the size. -/
def strbuilderGrow (str : Strbuilder) : Strbuilder :=
  { str with
    originalBufsize := str.originalBufsize * 2
    originalBuf := realloc junk str.originalBuf (str.originalBufsize * 2) }

/-- The loop of `strbuilder_append`: one round a call, `retry` for `goto retry`. -/
def strbuilderAppendRetry (cat : Bytes) : ℕ → Strbuilder → Comp Strbuilder
  | 0, _ => fault .hang
  | rounds + 1, str => do
    let maxWritesize ← sizeSub str.originalBufsize str.currPtr
    let (attemptedWritesize, buf) ← strlcat str.originalBuf str.currPtr cat maxWritesize
    let str := { str with originalBuf := buf }
    if attemptedWritesize ≥ maxWritesize then
      if str.growable then strbuilderAppendRetry cat rounds (strbuilderGrow junk str)
      else
        pure { str with
          currPtr := str.originalBufsize
          attemptedSize := str.attemptedSize + attemptedWritesize }
    else
      pure { str with
        currPtr := str.currPtr + attemptedWritesize
        attemptedSize := str.attemptedSize + attemptedWritesize }

/-- The rounds given to a retry loop for a piece of `len` bytes: the buffer is doubled in every
round but the last, so this is more than a loop that ends ever takes. -/
def retryRounds (len : ℕ) : ℕ := len + 2

/-- `strbuilder_append`. -/
def strbuilderAppend (str : Strbuilder) (cat : Bytes) : Comp Strbuilder :=
  strbuilderAppendRetry junk cat (retryRounds cat.length) str

/-- What `strbuilder_append_value` does once the size of the copy is decided. -/
def strbuilderCopyValue (val : Bytes) (maxWritesize charsToCopy : ℕ) (str : Strbuilder) :
    Comp Strbuilder := do
  let buf ← memcpy str.originalBuf str.currPtr val charsToCopy
  let buf ← store buf (str.currPtr + charsToCopy) [0]
  pure { str with
    originalBuf := buf
    attemptedSize := str.attemptedSize + val.length
    currPtr := if val.length + 1 > maxWritesize then str.originalBufsize
      else str.currPtr + val.length }

/-- The loop of `strbuilder_append_value`. -/
def strbuilderAppendValueRetry (val : Bytes) : ℕ → Strbuilder → Comp Strbuilder
  | 0, _ => fault .hang
  | rounds + 1, str => do
    let maxWritesize ← sizeSub str.originalBufsize str.currPtr
    if val.length + 1 > maxWritesize then
      if str.growable then strbuilderAppendValueRetry val rounds (strbuilderGrow junk str)
      else do
        let charsToCopy ← sizeSub maxWritesize 1
        strbuilderCopyValue val maxWritesize charsToCopy str
    else strbuilderCopyValue val maxWritesize val.length str

/-- `val` is the content of the value, `none` when it is not a `T_STRING`. -/
def strbuilderAppendValue (str : Strbuilder) : Option Bytes → Comp Strbuilder
  | none => fault (.abort "RB_TYPE_P(val, T_STRING)")
  | some val => strbuilderAppendValueRetry junk val (retryRounds val.length) str

/-- `rb_str_new2(str->original_buf)`, which reads the buffer up to its first NUL. -/
def strbuilderToValue (str : Strbuilder) : Comp RString :=
  if 0 ∈ str.originalBuf then pure (rbStrNew2 str.originalBuf)
  else fault (.wild str.originalBuf.length 1 str.originalBuf.length)

/-- One append to a builder: of a C string, or of a value (`none` when it is not a string). -/
inductive Piece
  | append (cat : Bytes)
  | appendValue (val : Option Bytes)
  deriving DecidableEq

/-- One append. -/
def strbuilderAppendPiece (str : Strbuilder) : Piece → Comp Strbuilder
  | .append cat => strbuilderAppend junk str cat
  | .appendValue val => strbuilderAppendValue junk str val

/-- A sequence of appends. -/
def strbuilderAppendPieces (str : Strbuilder) (pieces : List Piece) : Comp Strbuilder :=
  fold (strbuilderAppendPiece junk) str pieces

/-- What is left to the owner of the buffer: the attempted size, and the buffer. -/
def Strbuilder.contents (str : Strbuilder) : ℕ × Bytes := (str.attemptedSize, str.originalBuf)

end

/-! ## The text of a sequence of appends -/

/-- The bytes an append stands for. -/
def Piece.text : Piece → Bytes
  | .append cat => cat
  | .appendValue val => val.getD []

/-- The piece is a C string, without a NUL in it, or a Ruby string. -/
def Piece.Proper : Piece → Prop
  | .append cat => NulFree cat
  | .appendValue val => val.isSome

/-- The concatenation of the pieces. -/
def textOf (pieces : List Piece) : Bytes := pieces.flatMap Piece.text

@[simp] theorem textOf_nil : textOf [] = [] := rfl

@[simp] theorem textOf_cons (p : Piece) (ps : List Piece) :
    textOf (p :: ps) = p.text ++ textOf ps :=
  List.flatMap_cons

@[simp] theorem textOf_append (ps qs : List Piece) : textOf (ps ++ qs) = textOf ps ++ textOf qs :=
  List.flatMap_append

theorem textOf_appendValue (val : Bytes) : textOf [.appendValue (some val)] = val := by
  simp [Piece.text]

theorem proper_appendValue (val : Bytes) : ∀ p ∈ [Piece.appendValue (some val)], p.Proper := by
  intro p hp
  rw [List.mem_singleton.1 hp]
  rfl

/-! ## One round of a retry loop -/

section

variable {junk : ℕ → UInt8} {cat val buf : Bytes} {str str' : Strbuilder} {tr tr' : List Access}
  {rounds m : ℕ}

/-- The last round of `strbuilder_append` when the piece fits. -/
theorem appendRetry_fits (hle : str.currPtr ≤ str.originalBufsize)
    (hcat : (strlcat str.originalBuf str.currPtr cat (str.originalBufsize - str.currPtr)).Yields
      tr (m, buf)) (hm : m < str.originalBufsize - str.currPtr) :
    (strbuilderAppendRetry junk cat (rounds + 1) str).Yields
      ([.sub str.originalBufsize str.currPtr] ++ (tr ++ []))
      { str with originalBuf := buf, currPtr := str.currPtr + m,
                 attemptedSize := str.attemptedSize + m } := by
  refine (sizeSub_of_le hle).bind (hcat.bind ?_)
  simp only [ge_iff_le, if_neg (Nat.not_le.2 hm)]
  exact Yields.pure _

/-- The round of `strbuilder_append` that cuts the piece off, in a builder of fixed size. -/
theorem appendRetry_cut (hle : str.currPtr ≤ str.originalBufsize) (hfixed : str.growable = false)
    (hcat : (strlcat str.originalBuf str.currPtr cat (str.originalBufsize - str.currPtr)).Yields
      tr (m, buf)) (hm : str.originalBufsize - str.currPtr ≤ m) :
    (strbuilderAppendRetry junk cat (rounds + 1) str).Yields
      ([.sub str.originalBufsize str.currPtr] ++ (tr ++ []))
      { str with originalBuf := buf, currPtr := str.originalBufsize,
                 attemptedSize := str.attemptedSize + m } := by
  refine (sizeSub_of_le hle).bind (hcat.bind ?_)
  simp only [ge_iff_le, if_pos hm, hfixed]
  exact Yields.pure _

/-- A round of `strbuilder_append` that grows the buffer and tries again. -/
theorem appendRetry_grow (hle : str.currPtr ≤ str.originalBufsize) (hgrow : str.growable = true)
    (hcat : (strlcat str.originalBuf str.currPtr cat (str.originalBufsize - str.currPtr)).Yields
      tr (m, buf)) (hm : str.originalBufsize - str.currPtr ≤ m)
    (hrest : (strbuilderAppendRetry junk cat rounds
      (strbuilderGrow junk { str with originalBuf := buf })).Yields tr' str') :
    (strbuilderAppendRetry junk cat (rounds + 1) str).Yields
      ([.sub str.originalBufsize str.currPtr] ++ (tr ++ tr')) str' := by
  refine (sizeSub_of_le hle).bind (hcat.bind ?_)
  rw [hgrow] at hrest
  simp only [ge_iff_le, if_pos hm, hgrow, if_true]
  exact hrest

/-- The last round of `strbuilder_append_value` when the string fits. -/
theorem appendValueRetry_fits (hle : str.currPtr ≤ str.originalBufsize)
    (hm : val.length + 1 ≤ str.originalBufsize - str.currPtr)
    (hcopy : (strbuilderCopyValue val (str.originalBufsize - str.currPtr) val.length str).Yields
      tr str') :
    (strbuilderAppendValueRetry junk val (rounds + 1) str).Yields
      ([.sub str.originalBufsize str.currPtr] ++ tr) str' := by
  refine (sizeSub_of_le hle).bind ?_
  rw [if_neg (Nat.not_lt.2 hm)]
  exact hcopy

/-- The round of `strbuilder_append_value` that cuts the string off to the size `m` it computes,
in a builder of fixed size. -/
theorem appendValueRetry_cut (hle : str.currPtr ≤ str.originalBufsize)
    (hfixed : str.growable = false) (hlong : str.originalBufsize - str.currPtr < val.length + 1)
    (hm : (sizeSub (str.originalBufsize - str.currPtr) 1).Yields tr m) :
    strbuilderAppendValueRetry junk val (rounds + 1) str =
      ⟨[.sub str.originalBufsize str.currPtr] ++
        (tr ++ (strbuilderCopyValue val (str.originalBufsize - str.currPtr) m str).trace),
        (strbuilderCopyValue val (str.originalBufsize - str.currPtr) m str).result⟩ := by
  have hround : sizeSub str.originalBufsize str.currPtr =
      ⟨[.sub str.originalBufsize str.currPtr], .ok (str.originalBufsize - str.currPtr)⟩ :=
    sizeSub_of_le hle
  rw [strbuilderAppendValueRetry, hround, mk_ok_bind, if_pos hlong, hfixed,
    if_neg Bool.false_ne_true, hm, mk_ok_bind]

/-- A round of `strbuilder_append_value` that grows the buffer and tries again. -/
theorem appendValueRetry_grow (hle : str.currPtr ≤ str.originalBufsize)
    (hgrow : str.growable = true) (hm : str.originalBufsize - str.currPtr < val.length + 1)
    (hrest : (strbuilderAppendValueRetry junk val rounds (strbuilderGrow junk str)).Yields
      tr str') :
    (strbuilderAppendValueRetry junk val (rounds + 1) str).Yields
      ([.sub str.originalBufsize str.currPtr] ++ tr) str' := by
  refine (sizeSub_of_le hle).bind ?_
  rw [if_pos hm]
  simp only [hgrow, if_true]
  exact hrest

/-- A copy that leaves the buffer. -/
theorem copyValue_wild {n maxWritesize : ℕ} (h : str.originalBuf.length < str.currPtr + n) :
    strbuilderCopyValue val maxWritesize n str =
      ⟨[.write str.currPtr n str.originalBuf.length],
        .error (.wild str.currPtr n str.originalBuf.length)⟩ := by
  rw [strbuilderCopyValue, memcpy_wild h, mk_error_bind]

/-- Copying the first `n` bytes of a Ruby string over what follows `pre`, with a NUL behind. -/
theorem copyValue_yields {pre mid : Bytes} {n maxWritesize : ℕ}
    (hbuf : str.originalBuf = pre ++ mid) (hpre : str.currPtr = pre.length)
    (hmid : n < mid.length) (hn : n ≤ val.length) :
    (strbuilderCopyValue val maxWritesize n str).Yields
      ([.write pre.length n str.originalBuf.length] ++
        ([.write (pre.length + n) 1 str.originalBuf.length] ++ []))
      { str with
        originalBuf := pre ++ (val.take n ++ 0 :: mid.drop (n + 1))
        attemptedSize := str.attemptedSize + val.length
        currPtr := if val.length + 1 > maxWritesize then str.originalBufsize
          else str.currPtr + val.length } := by
  -- `mid` is what the string goes over, the byte of the NUL, and what stays
  have hsplit : mid = mid.take n ++ mid[n] :: mid.drop (n + 1) := by
    rw [List.getElem_cons_drop, List.take_append_drop]
  have hold : (mid.take n).length = n := by
    rw [List.length_take]
    omega
  have hcopied : (val.take n).length = n := by rw [List.length_take, Nat.min_eq_left hn]
  have hsize : str.originalBuf.length =
      ((pre ++ val.take n) ++ ([mid[n]] ++ mid.drop (n + 1))).length := by
    rw [hbuf]
    simp only [List.length_append, hcopied, List.length_cons, List.length_nil, List.length_drop]
    omega
  refine Yields.bind (a := pre ++ (val.take n ++ mid[n] :: mid.drop (n + 1))) ?_ (Yields.bind
    (a := pre ++ (val.take n ++ 0 :: mid.drop (n + 1))) ?_ (Yields.pure _))
  · have h := memcpy_append pre (mid.take n) val (mid[n] :: mid.drop (n + 1)) hold hn
    rw [← hsplit, ← hbuf] at h
    rwa [hpre]
  · have h := store_append (pre ++ val.take n) [mid[n]] [0] (mid.drop (n + 1)) rfl
    rw [← hsize, List.length_append, hcopied] at h
    rw [hpre]
    simpa [List.append_assoc] using h

end

end Backtracie
