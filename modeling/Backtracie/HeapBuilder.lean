import Backtracie.Strbuilder
import Backtracie.Foundations.Heap

/-!
# The string builder on the heap

The builder of `strbuilder.c` once more, now with its two pointers and with the buffer as an object
on the heap, which `realloc` may move. The names are those of the source, in the namespace
`OnHeap`. `Represents others home p h str` says that the pointers of `p` stand for the builder `str`
of `Backtracie.Strbuilder`, where a pointer is an offset, and that the other objects of the heap are
`others`. `appendPieces_simulates`: every sequence of appends does on the heap what it does there.
-/

namespace Backtracie.OnHeap

open CMem Traced

/-- `strbuilder_t`. -/
structure Strbuilder where
  originalBuf : Ptr
  currPtr : Ptr
  originalBufsize : ℕ
  attemptedSize : ℕ
  growable : Bool
  deriving DecidableEq

/-- `str->original_buf[0] = '\0'`, when there is such a byte. -/
def terminateEmpty (buf : Ptr) (bufsize : ℕ) : HeapComp Unit :=
  if bufsize > 0 then buf.store [0] else pure ()

/-- `strbuilder_init`. -/
def strbuilderInit (buf : Ptr) (bufsize : ℕ) : HeapComp Strbuilder := do
  terminateEmpty buf bufsize
  pure { originalBuf := buf, currPtr := buf, originalBufsize := bufsize, attemptedSize := 0,
         growable := false }

/-- `strbuilder_free_growable`. -/
def strbuilderFreeGrowable (str : Strbuilder) : HeapComp Unit :=
  if str.growable then Heap.free str.originalBuf
  else HeapComp.of (fault (.abort "str->growable"))

section

variable (stays : ℕ → ℕ → Bool) (junk : ℕ → UInt8)

/-- `strbuilder_init_growable`. -/
def strbuilderInitGrowable (initialBufsize : ℕ) : HeapComp Strbuilder := do
  let buf ← Heap.malloc junk initialBufsize
  terminateEmpty buf initialBufsize
  pure { originalBuf := buf, currPtr := buf, originalBufsize := initialBufsize,
         attemptedSize := 0, growable := true }

/-- `strbuilder_grow`: the write position keeps its offset, in the buffer that `realloc` returns. -/
def strbuilderGrow (str : Strbuilder) : HeapComp Strbuilder := do
  let offset ← str.currPtr.sub str.originalBuf
  let buf ← Heap.realloc stays junk str.originalBuf (str.originalBufsize * 2)
  pure { str with
    originalBufsize := str.originalBufsize * 2, originalBuf := buf, currPtr := buf.add offset }

/-- The loop of `strbuilder_append`. -/
def strbuilderAppendRetry (cat : Bytes) : ℕ → Strbuilder → HeapComp Strbuilder
  | 0, _ => HeapComp.of (fault .hang)
  | rounds + 1, str => do
    let offset ← str.currPtr.sub str.originalBuf
    let maxWritesize ← HeapComp.of (sizeSub str.originalBufsize offset)
    let attemptedWritesize ← str.currPtr.strlcat cat maxWritesize
    if attemptedWritesize ≥ maxWritesize then
      if str.growable then do
        let str ← strbuilderGrow stays junk str
        strbuilderAppendRetry cat rounds str
      else
        pure { str with
          currPtr := str.originalBuf.add str.originalBufsize
          attemptedSize := str.attemptedSize + attemptedWritesize }
    else
      pure { str with
        currPtr := str.currPtr.add attemptedWritesize
        attemptedSize := str.attemptedSize + attemptedWritesize }

/-- `strbuilder_append`. -/
def strbuilderAppend (str : Strbuilder) (cat : Bytes) : HeapComp Strbuilder :=
  strbuilderAppendRetry stays junk cat (retryRounds cat.length) str

/-- What `strbuilder_append_value` does once the size of the copy is decided. -/
def strbuilderCopyValue (val : Bytes) (maxWritesize charsToCopy : ℕ) (str : Strbuilder) :
    HeapComp Strbuilder := do
  str.currPtr.memcpy val charsToCopy
  (str.currPtr.add charsToCopy).store [0]
  pure { str with
    attemptedSize := str.attemptedSize + val.length
    currPtr := if val.length + 1 > maxWritesize then str.originalBuf.add str.originalBufsize
      else str.currPtr.add val.length }

/-- The loop of `strbuilder_append_value`. -/
def strbuilderAppendValueRetry (val : Bytes) : ℕ → Strbuilder → HeapComp Strbuilder
  | 0, _ => HeapComp.of (fault .hang)
  | rounds + 1, str => do
    let offset ← str.currPtr.sub str.originalBuf
    let maxWritesize ← HeapComp.of (sizeSub str.originalBufsize offset)
    if val.length + 1 > maxWritesize then
      if str.growable then do
        let str ← strbuilderGrow stays junk str
        strbuilderAppendValueRetry val rounds str
      else do
        let charsToCopy ← HeapComp.of (sizeSub maxWritesize 1)
        strbuilderCopyValue val maxWritesize charsToCopy str
    else strbuilderCopyValue val maxWritesize val.length str

/-- `strbuilder_append_value`; `none` stands for a value that is not a `T_STRING`. -/
def strbuilderAppendValue (str : Strbuilder) : Option Bytes → HeapComp Strbuilder
  | none => HeapComp.of (fault (.abort "RB_TYPE_P(val, T_STRING)"))
  | some val => strbuilderAppendValueRetry stays junk val (retryRounds val.length) str

/-- `rb_str_new2(str->original_buf)`. -/
def strbuilderToValue (str : Strbuilder) : HeapComp RString :=
  str.originalBuf.read fun buf _ =>
    if 0 ∈ buf then pure (rbStrNew2 buf) else fault (.wild buf.length 1 buf.length)

/-- One append. -/
def strbuilderAppendPiece (str : Strbuilder) : Piece → HeapComp Strbuilder
  | .append cat => strbuilderAppend stays junk str cat
  | .appendValue val => strbuilderAppendValue stays junk str val

/-- A sequence of appends. -/
def strbuilderAppendPieces : Strbuilder → List Piece → HeapComp Strbuilder
  | str, [] => pure str
  | str, p :: ps => do
    let str ← strbuilderAppendPiece stays junk str p
    strbuilderAppendPieces str ps

end

/-! ## Builders with pointers and with offsets -/

/-- On the heap `h` the pointers of `p` stand for the builder `str`; the other objects are
`others`. With a `home` the builder is one of fixed size on the buffer there. -/
structure Represents (others : ℕ → Option Bytes) (home : Option Ptr) (p : Strbuilder) (h : Heap)
    (str : Backtracie.Strbuilder) : Prop where
  start : p.originalBuf.off = 0
  block : p.currPtr.block = p.originalBuf.block
  cursor : p.currPtr.off = str.currPtr
  buf : h.object p.originalBuf.block = some str.originalBuf
  rest : h.without p.originalBuf.block = others
  bufsize : p.originalBufsize = str.originalBufsize
  attempted : p.attemptedSize = str.attemptedSize
  growable : p.growable = str.growable
  fixed : ∀ q, home = some q → p.originalBuf = q ∧ str.growable = false

section

variable {stays : ℕ → ℕ → Bool} {junk : ℕ → UInt8} {others : ℕ → Option Bytes} {home : Option Ptr}
  {h : Heap} {p : Strbuilder} {str : Backtracie.Strbuilder}

/-- The buffer is given other contents. -/
theorem Represents.write (hr : Represents others home p h str) (buf : Bytes) :
    Represents others home p (h.write p.originalBuf.block buf) { str with originalBuf := buf } :=
  ⟨hr.start, hr.block, hr.cursor, Heap.object_write hr.buf, Heap.without_write.trans hr.rest,
    hr.bufsize, hr.attempted, hr.growable, hr.fixed⟩

/-- The write pointer is moved forward, and more was attempted. -/
theorem Represents.advance (hr : Represents others home p h str) (n len : ℕ) :
    Represents others home
      { p with currPtr := p.currPtr.add n, attemptedSize := p.attemptedSize + len } h
      { str with currPtr := str.currPtr + n, attemptedSize := str.attemptedSize + len } :=
  ⟨hr.start, hr.block, congrArg (· + n) hr.cursor, hr.buf, hr.rest, hr.bufsize,
    congrArg (· + len) hr.attempted, hr.growable, hr.fixed⟩

/-- The write pointer is moved one past the end. -/
theorem Represents.atEnd (hr : Represents others home p h str) (len : ℕ) :
    Represents others home
      { p with
        currPtr := p.originalBuf.add p.originalBufsize, attemptedSize := p.attemptedSize + len } h
      { str with
        currPtr := str.originalBufsize, attemptedSize := str.attemptedSize + len } := by
  refine ⟨hr.start, rfl, ?_, hr.buf, hr.rest, hr.bufsize, congrArg (· + len) hr.attempted,
    hr.growable, hr.fixed⟩
  show p.originalBuf.off + p.originalBufsize = str.originalBufsize
  rw [hr.start, hr.bufsize, Nat.zero_add]

/-- The difference of the two pointers is the offset. -/
theorem Represents.sub (hr : Represents others home p h str) :
    p.currPtr.sub p.originalBuf h = pure (str.currPtr, h) := by
  have hle : p.originalBuf.off ≤ p.currPtr.off := by
    rw [hr.start]
    exact Nat.zero_le _
  unfold Ptr.sub
  rw [if_pos ⟨hr.block, hle⟩, hr.start, hr.cursor, Nat.sub_zero]

/-- `realloc` of the buffer, where it stays and where it is moved. -/
theorem Represents.realloc (hr : Represents others home p h str) (stays : ℕ → ℕ → Bool)
    (junk : ℕ → UInt8) (n : ℕ) :
    ∃ q h', Heap.realloc stays junk p.originalBuf n h = pure (q, h') ∧ q.off = 0 ∧
      h'.object q.block = some (CMem.realloc junk str.originalBuf n) ∧
      h'.without q.block = others := by
  unfold Heap.realloc
  simp only [hr.buf, hr.start, ne_eq, not_true, if_false]
  by_cases hstays : stays p.originalBuf.block n = true
  · rw [if_pos hstays]
    exact ⟨_, _, rfl, hr.start, Heap.object_write hr.buf, Heap.without_write.trans hr.rest⟩
  · rw [if_neg hstays]
    exact ⟨_, _, rfl, rfl, if_pos rfl, Heap.without_alloc.trans hr.rest⟩

/-- **Growing**: the write pointer moves with the buffer. -/
theorem Represents.grow (hr : Represents others home p h str) (hgrowable : str.growable = true) :
    ∃ p' h', strbuilderGrow stays junk p h = pure (p', h') ∧
      Represents others home p' h' (Backtracie.strbuilderGrow junk str) := by
  obtain ⟨q, h', hq, hoff, hbuf, hrest⟩ := hr.realloc stays junk (p.originalBufsize * 2)
  refine ⟨{ p with
      originalBufsize := p.originalBufsize * 2, originalBuf := q, currPtr := q.add str.currPtr },
    h', ?_, ?_⟩
  · show (p.currPtr.sub p.originalBuf h >>= fun x =>
      Heap.realloc stays junk p.originalBuf (p.originalBufsize * 2) x.2 >>= fun y =>
      pure ({ p with
        originalBufsize := p.originalBufsize * 2, originalBuf := y.1
        currPtr := y.1.add x.1 }, y.2)) = _
    rw [hr.sub, pure_bind, hq, pure_bind]
  · refine ⟨hoff, rfl, ?_, ?_, hrest, ?_, hr.attempted, hr.growable, fun q hq => ?_⟩
    · show q.off + str.currPtr = str.currPtr
      rw [hoff, Nat.zero_add]
    · rw [hbuf, hr.bufsize]
      rfl
    · show p.originalBufsize * 2 = str.originalBufsize * 2
      rw [hr.bufsize]
    · exact absurd (hgrowable.symm.trans (hr.fixed q hq).2) Bool.noConfusion

/-- A function that changes the buffer, from a pointer into it on. -/
theorem Represents.update (hr : Represents others home p h str) {q : Ptr}
    (hq : q.block = p.originalBuf.block) (f : Bytes → ℕ → Comp Bytes) :
    Simulates (fun _ h' buf => Represents others home p h' { str with originalBuf := buf }) h
      (q.update f) (f str.originalBuf q.off) := by
  refine (Simulates.update (hq ▸ hr.buf) f).mono fun _ h' buf => ?_
  rintro rfl
  rw [hq]
  exact hr.write buf

/-- As `update`, for a function that returns a value. -/
theorem Represents.access {α : Type} (hr : Represents others home p h str) {q : Ptr}
    (hq : q.block = p.originalBuf.block) (f : Bytes → ℕ → Comp (α × Bytes)) :
    Simulates (fun a h' r => a = r.1 ∧ Represents others home p h' { str with originalBuf := r.2 })
      h (q.access f) (f str.originalBuf q.off) := by
  refine (Simulates.access (hq ▸ hr.buf) f).mono fun a h' r => ?_
  rintro ⟨rfl, rfl⟩
  rw [hq]
  exact ⟨rfl, hr.write r.2⟩

/-- The room that is left in the buffer. -/
theorem Represents.maxWritesize {γ δ : Type} {S : γ → Heap → δ → Prop}
    {f : ℕ → HeapComp γ} {g : ℕ → Comp δ} (hr : Represents others home p h str)
    (hfg : ∀ maxWritesize, Simulates S h (f maxWritesize) (g maxWritesize)) :
    Simulates S h
      (do
        let offset ← p.currPtr.sub p.originalBuf
        let maxWritesize ← HeapComp.of (sizeSub p.originalBufsize offset)
        f maxWritesize)
      (do
        let maxWritesize ← sizeSub str.originalBufsize str.currPtr
        g maxWritesize) := by
  apply Simulates.step hr.sub
  rw [hr.bufsize]
  apply (Simulates.of (sizeSub str.originalBufsize str.currPtr)).bind
  rintro maxWritesize _ _ ⟨rfl, rfl⟩
  exact hfg maxWritesize

/-- The loop of `strbuilder_append`, by induction on the rounds. -/
theorem appendRetry_simulates (cat : Bytes) (rounds : ℕ) (hr : Represents others home p h str) :
    Simulates (Represents others home) h (strbuilderAppendRetry stays junk cat rounds p)
      (Backtracie.strbuilderAppendRetry junk cat rounds str) := by
  induction rounds generalizing h p str with
  | zero => exact Simulates.fault .hang
  | succ rounds ih =>
    apply hr.maxWritesize
    intro maxWritesize
    have hcat := hr.access hr.block fun buf off => CMem.strlcat buf off cat maxWritesize
    rw [hr.cursor] at hcat
    apply hcat.bind
    rintro attempted h' ⟨_, buf⟩ ⟨rfl, hr'⟩
    dsimp only
    split
    · by_cases hgrowable : str.growable = true
      · rw [if_pos hgrowable, if_pos (hr.growable.trans hgrowable)]
        obtain ⟨p', h'', hgrow, hr''⟩ := @Represents.grow stays junk _ _ _ _ _ hr' hgrowable
        apply Simulates.step hgrow
        exact ih hr''
      · rw [if_neg hgrowable, if_neg fun h => hgrowable (hr.growable.symm.trans h)]
        exact Simulates.pure (hr'.atEnd attempted)
    · exact Simulates.pure (hr'.advance attempted attempted)

/-- What `strbuilder_append_value` does once the size of the copy is decided. -/
theorem copyValue_simulates (val : Bytes) (maxWritesize charsToCopy : ℕ)
    (hr : Represents others home p h str) :
    Simulates (Represents others home) h (strbuilderCopyValue val maxWritesize charsToCopy p)
      (Backtracie.strbuilderCopyValue val maxWritesize charsToCopy str) := by
  have hcopy := hr.update hr.block fun buf off => CMem.memcpy buf off val charsToCopy
  rw [hr.cursor] at hcopy
  apply hcopy.bind
  intro _ h' buf hr'
  have hstore := hr'.update (q := p.currPtr.add charsToCopy) hr.block
    fun buf off => CMem.store buf off [0]
  have hoff : (p.currPtr.add charsToCopy).off = str.currPtr + charsToCopy :=
    congrArg (· + charsToCopy) hr.cursor
  rw [hoff] at hstore
  apply hstore.bind
  intro _ h'' buf' hr''
  apply Simulates.pure
  by_cases hlong : val.length + 1 > maxWritesize
  · simp only [if_pos hlong]
    exact hr''.atEnd val.length
  · simp only [if_neg hlong]
    exact hr''.advance val.length val.length

/-- The loop of `strbuilder_append_value`, by induction on the rounds. -/
theorem appendValueRetry_simulates (val : Bytes) (rounds : ℕ)
    (hr : Represents others home p h str) :
    Simulates (Represents others home) h (strbuilderAppendValueRetry stays junk val rounds p)
      (Backtracie.strbuilderAppendValueRetry junk val rounds str) := by
  induction rounds generalizing h p str with
  | zero => exact Simulates.fault .hang
  | succ rounds ih =>
    apply hr.maxWritesize
    intro maxWritesize
    split
    · by_cases hgrowable : str.growable = true
      · rw [if_pos hgrowable, if_pos (hr.growable.trans hgrowable)]
        obtain ⟨p', h', hgrow, hr'⟩ := @Represents.grow stays junk _ _ _ _ _ hr hgrowable
        apply Simulates.step hgrow
        exact ih hr'
      · rw [if_neg hgrowable, if_neg fun h => hgrowable (hr.growable.symm.trans h)]
        apply (Simulates.of (sizeSub maxWritesize 1)).bind
        rintro charsToCopy _ _ ⟨rfl, rfl⟩
        exact copyValue_simulates val maxWritesize charsToCopy hr
    · exact copyValue_simulates val maxWritesize val.length hr

theorem appendPiece_simulates (hr : Represents others home p h str) (piece : Piece) :
    Simulates (Represents others home) h (strbuilderAppendPiece stays junk p piece)
      (Backtracie.strbuilderAppendPiece junk str piece) := by
  cases piece with
  | append cat => exact appendRetry_simulates cat (retryRounds cat.length) hr
  | appendValue val =>
    cases val with
    | none => exact Simulates.fault (.abort "RB_TYPE_P(val, T_STRING)")
    | some val => exact appendValueRetry_simulates val (retryRounds val.length) hr

/-- **A sequence of appends** does on the heap what it does on a buffer of its own. -/
theorem appendPieces_simulates (hr : Represents others home p h str) (pieces : List Piece) :
    Simulates (Represents others home) h (strbuilderAppendPieces stays junk p pieces)
      (Backtracie.strbuilderAppendPieces junk str pieces) := by
  induction pieces generalizing h p str with
  | nil => exact Simulates.pure hr
  | cons piece pieces ih =>
    apply (appendPiece_simulates hr piece).bind
    intro p' h' str' hr'
    exact ih hr'

end

end Backtracie.OnHeap
