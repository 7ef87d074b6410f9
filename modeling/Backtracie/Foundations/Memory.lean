import Backtracie.Foundations.Traced
import Mathlib.Algebra.Group.Nat.Defs
import Mathlib.Data.List.TakeWhile
import Mathlib.Order.Basic

/-!
# Byte buffers and the C string functions on them

A C object is the list of its bytes, a pointer into it an offset. The functions below are the
library functions of C and BSD that write into such an object. Each logs what it is asked to do
(`Access`) and ends in a `Fault` where C leaves the behaviour undefined.

Sizes are natural numbers without an upper bound; a subtraction of sizes that would go below
zero wraps around as `size_t` does (`sizeSub`), and is logged.

* `store`, `memcpy` write bytes, inside the object or not at all;
* `strlcat` appends after the first NUL of the destination and returns the length it tried to
  create (`strlcat_yields`, `strlcat_zero`).
-/

namespace CMem

/-- The contents of a C object. -/
abbrev Bytes := List UInt8

/-- The bytes of a string literal, without its terminator. -/
def lit (s : String) : Bytes := s.toList.map fun c => UInt8.ofNat c.toNat

/-- The C string at the start of a sequence of bytes: what is read up to the first NUL. -/
def cstr (s : Bytes) : Bytes := s.takeWhile (· ≠ 0)

/-- No byte of `s` is NUL. -/
def NulFree (s : Bytes) : Prop := (0 : UInt8) ∉ s

instance (s : Bytes) : Decidable (NulFree s) := inferInstanceAs (Decidable ((0 : UInt8) ∉ s))

/-- What a computation asks of the memory and of the size arithmetic. -/
inductive Access
  /-- Write `len` bytes at offset `off` of an object of `size` bytes. -/
  | write (off len size : ℕ)
  /-- Compute the size `a - b`. -/
  | sub (a b : ℕ)
  deriving DecidableEq

/-- The write stays inside the object; the subtraction does not go below zero. -/
def Access.Ok : Access → Prop
  | .write off len size => off + len ≤ size
  | .sub a b => b ≤ a

instance : DecidablePred Access.Ok
  | .write off len size => inferInstanceAs (Decidable (off + len ≤ size))
  | .sub a b => inferInstanceAs (Decidable (b ≤ a))

/-- As `Ok`, with every write below index `n`. -/
def Access.Inside (n : ℕ) : Access → Prop
  | .write off len _ => off + len ≤ n
  | .sub a b => b ≤ a

instance (n : ℕ) : DecidablePred (Access.Inside n)
  | .write off len _ => inferInstanceAs (Decidable (off + len ≤ n))
  | .sub a b => inferInstanceAs (Decidable (b ≤ a))

/-- The abnormal ends of a C computation. -/
inductive Fault
  /-- An access of `len` bytes at `off` that leaves the object of `size` bytes. -/
  | wild (off len size : ℕ)
  /-- A NULL pointer is dereferenced. -/
  | null
  /-- An assertion fails. -/
  | abort (msg : String)
  /-- A loop or a recursion is not done within the rounds allotted to it. -/
  | hang
  deriving DecidableEq

/-- Computations on C objects. -/
abbrev Comp := Traced Access Fault

open Traced

/-- `malloc(n)`, where byte `i` of the memory handed out holds `junk i`. -/
def malloc (junk : ℕ → UInt8) (n : ℕ) : Bytes := (List.range n).map junk

/-- `realloc(buf, n)`: the bytes both objects have are kept, those beyond hold `junk`. -/
def realloc (junk : ℕ → UInt8) (buf : Bytes) (n : ℕ) : Bytes :=
  buf.take n ++ (List.range' buf.length (n - buf.length)).map junk

/-- The number of values of `size_t`. -/
def sizeModulus : ℕ := 2 ^ 64

/-- Subtraction of sizes: modulo `sizeModulus` when it goes below zero. -/
def sizeSub (a b : ℕ) : Comp ℕ := do
  emit (.sub a b)
  pure (if b ≤ a then a - b else sizeModulus + a - b)

/-- The object with the bytes of `src` from offset `off` on. -/
def patch (buf : Bytes) (off : ℕ) (src : Bytes) : Bytes :=
  buf.take off ++ src ++ buf.drop (off + src.length)

/-- Assign the bytes `src` at offset `off`. -/
def store (buf : Bytes) (off : ℕ) (src : Bytes) : Comp Bytes := do
  emit (.write off src.length buf.length)
  if off + src.length ≤ buf.length then pure (patch buf off src)
  else fault (.wild off src.length buf.length)

/-- `memcpy(buf + off, src, n)`. -/
def memcpy (buf : Bytes) (off : ℕ) (src : Bytes) (n : ℕ) : Comp Bytes := do
  emit (.write off n buf.length)
  if off + n ≤ buf.length then
    if n ≤ src.length then pure (patch buf off (src.take n))
    else fault (.wild 0 n src.length)
  else fault (.wild off n buf.length)

/-- `strlcat(buf + off, src, dsize)`: the length it tried to create, and the object after it. -/
def strlcat (buf : Bytes) (off : ℕ) (src : Bytes) (dsize : ℕ) : Comp (ℕ × Bytes) := do
  let dlen := (cstr ((buf.drop off).take dsize)).length
  if dlen = dsize then pure (dsize + (cstr src).length, buf)
  else do
    let buf ← store buf (off + dlen) ((cstr src).take (dsize - dlen - 1) ++ [0])
    pure (dlen + (cstr src).length, buf)

/-! ## C strings -/

theorem cstr_eq_self_iff {s : Bytes} : cstr s = s ↔ NulFree s := by
  rw [cstr, List.takeWhile_eq_self_iff]
  constructor
  · intro h hzero
    simpa using h 0 hzero
  · intro h b hb
    simpa using fun h0 : b = 0 => h (h0 ▸ hb)

theorem cstr_of_nulFree {s : Bytes} (h : NulFree s) : cstr s = s := cstr_eq_self_iff.2 h

/-- What is read up to a NUL behind a text is what is read of the text. -/
theorem cstr_append_cons_nul (t rest : Bytes) : cstr (t ++ 0 :: rest) = cstr t := by
  rw [cstr, cstr, List.takeWhile_append]
  split
  · next hall =>
    have := (List.takeWhile_prefix (fun b : UInt8 => decide (b ≠ 0))).eq_of_length hall
    rw [this]
    simp
  · rfl

/-- A NUL-free text followed by a NUL is read back whole. -/
theorem cstr_append_nul {t : Bytes} (h : NulFree t) (rest : Bytes) : cstr (t ++ 0 :: rest) = t := by
  rw [cstr_append_cons_nul, cstr_of_nulFree h]

@[simp] theorem nulFree_nil : NulFree [] := List.not_mem_nil

theorem nulFree_append {s t : Bytes} : NulFree (s ++ t) ↔ NulFree s ∧ NulFree t := by
  simp only [NulFree, List.mem_append, not_or]

theorem NulFree.take {s : Bytes} (h : NulFree s) (n : ℕ) : NulFree (s.take n) :=
  fun h0 => h (List.mem_of_mem_take h0)

/-! ## Allocation -/

@[simp] theorem length_malloc (junk : ℕ → UInt8) (n : ℕ) : (malloc junk n).length = n := by
  simp [malloc]

@[simp] theorem length_realloc (junk : ℕ → UInt8) (buf : Bytes) (n : ℕ) :
    (realloc junk buf n).length = n := by
  simp only [realloc, List.length_append, List.length_take, List.length_map, List.length_range']
  omega

/-- Growing an object keeps its bytes. -/
theorem realloc_eq_append (junk : ℕ → UInt8) {buf : Bytes} {n : ℕ} (h : buf.length ≤ n) :
    ∃ new : Bytes, new.length = n - buf.length ∧ realloc junk buf n = buf ++ new :=
  ⟨(List.range' buf.length (n - buf.length)).map junk, by simp,
    by rw [realloc, List.take_of_length_le h]⟩

/-! ## Writes -/

theorem sizeSub_of_le {a b : ℕ} (h : b ≤ a) : (sizeSub a b).Yields [.sub a b] (a - b) := by
  simp only [sizeSub, if_pos h]
  rfl

/-- One byte less than nothing is the largest size there is. -/
theorem sizeSub_zero_one : sizeSub 0 1 = ⟨[.sub 0 1], .ok (sizeModulus - 1)⟩ := by
  rw [sizeSub, if_neg (Nat.not_succ_le_zero 0)]
  rfl

theorem one_lt_sizeModulus : 1 < sizeModulus := Nat.one_lt_two_pow (by decide)

/-- Writing over the bytes `old` that follow `pre`. -/
theorem patch_append (pre : Bytes) {old src : Bytes} (rest : Bytes) (h : old.length = src.length) :
    patch (pre ++ (old ++ rest)) pre.length src = pre ++ (src ++ rest) := by
  rw [patch, List.take_left, ← h, ← List.append_assoc pre old rest, ← List.length_append,
    List.drop_left, List.append_assoc]

theorem store_yields {buf src : Bytes} {off : ℕ} (h : off + src.length ≤ buf.length) :
    (store buf off src).Yields [.write off src.length buf.length] (patch buf off src) := by
  simp only [store, if_pos h]
  rfl

/-- Storing over the bytes `old` that follow `pre`. -/
theorem store_append (pre : Bytes) (old src rest : Bytes) (h : old.length = src.length) :
    (store (pre ++ (old ++ rest)) pre.length src).Yields
      [.write pre.length src.length (pre ++ (old ++ rest)).length] (pre ++ (src ++ rest)) := by
  rw [← patch_append pre rest h]
  refine store_yields ?_
  simp only [List.length_append, h]
  omega

theorem memcpy_yields {buf src : Bytes} {off n : ℕ} (h : off + n ≤ buf.length)
    (hn : n ≤ src.length) :
    (memcpy buf off src n).Yields [.write off n buf.length] (patch buf off (src.take n)) := by
  simp only [memcpy, if_pos h, if_pos hn]
  rfl

/-- Copying over the bytes `old` that follow `pre`. -/
theorem memcpy_append (pre : Bytes) (old src rest : Bytes) {n : ℕ} (hold : old.length = n)
    (hn : n ≤ src.length) :
    (memcpy (pre ++ (old ++ rest)) pre.length src n).Yields
      [.write pre.length n (pre ++ (old ++ rest)).length] (pre ++ (src.take n ++ rest)) := by
  have hpatch : patch (pre ++ (old ++ rest)) pre.length (src.take n) =
      pre ++ (src.take n ++ rest) :=
    patch_append pre rest (by rw [hold, List.length_take, Nat.min_eq_left hn])
  rw [← hpatch]
  refine memcpy_yields ?_ hn
  simp only [List.length_append, hold]
  omega

/-- `memcpy` beyond the destination does not return. -/
theorem memcpy_wild {buf src : Bytes} {off n : ℕ} (h : buf.length < off + n) :
    memcpy buf off src n = ⟨[.write off n buf.length], .error (.wild off n buf.length)⟩ := by
  simp only [memcpy, if_neg (Nat.not_le.2 h)]
  rfl

/-- With no room at all `strlcat` writes nothing and returns the length of the source. -/
theorem strlcat_zero (buf : Bytes) (off : ℕ) (src : Bytes) :
    (strlcat buf off src 0).Yields [] ((cstr src).length, buf) := by
  simp only [strlcat, List.take_zero, cstr, List.takeWhile_nil, List.length_nil, if_true,
    Nat.zero_add]
  rfl

/-- The bytes behind the NUL that `strlcat` overwrites, and those it leaves alone. -/
theorem take_append_drop_of_le (rest chunk : Bytes) (h : chunk.length ≤ rest.length) :
    (rest.take chunk.length).length = chunk.length ∧
      rest.take chunk.length ++ rest.drop chunk.length = rest :=
  ⟨by rw [List.length_take]; omega, List.take_append_drop _ _⟩

/-- **`strlcat` after a text `t`** that ends in a NUL within the room `dsize`: it writes as much
of the source as the room allows, then a NUL, and returns the length of the two together. -/
theorem strlcat_yields (pre : Bytes) {t src : Bytes} (rest : Bytes) {dsize : ℕ} (ht : NulFree t)
    (hs : NulFree src) (hlt : t.length < dsize) (hroom : dsize ≤ t.length + rest.length + 1) :
    (strlcat (pre ++ t ++ 0 :: rest) pre.length src dsize).Yields
      [.write (pre.length + t.length) ((src.take (dsize - t.length - 1)).length + 1)
        (pre ++ t ++ 0 :: rest).length]
      (t.length + src.length,
        pre ++ t ++ ((src.take (dsize - t.length - 1) ++ [0]) ++
          rest.drop (src.take (dsize - t.length - 1)).length)) := by
  have hscan : cstr (((pre ++ t ++ 0 :: rest).drop pre.length).take dsize) = t := by
    obtain ⟨k, hk⟩ : ∃ k, dsize - t.length = k + 1 := ⟨dsize - t.length - 1, by omega⟩
    rw [List.append_assoc, List.drop_left, List.take_append, hk, List.take_succ_cons,
      List.take_of_length_le hlt.le]
    exact cstr_append_nul ht _
  set chunk := src.take (dsize - t.length - 1) with hchunk
  have hle : chunk.length ≤ rest.length := by
    rw [hchunk, List.length_take]
    omega
  obtain ⟨hold, hsplit⟩ := take_append_drop_of_le rest chunk hle
  have hstore := store_append (pre ++ t) (0 :: rest.take chunk.length) (chunk ++ [0])
    (rest.drop chunk.length) (by simp [hold])
  rw [List.cons_append, hsplit, List.length_append, @List.length_append _ chunk] at hstore
  simp only [strlcat, hscan, if_neg hlt.ne, cstr_of_nulFree hs]
  exact hstore.bind (f := fun buf => pure (t.length + src.length, buf)) (Yields.pure _)

/-- `strlcat` where the destination is empty. -/
theorem strlcat_nul_yields (pre : Bytes) {src : Bytes} (rest : Bytes) {dsize : ℕ}
    (hs : NulFree src) (hpos : 0 < dsize) (hroom : dsize ≤ rest.length + 1) :
    (strlcat (pre ++ 0 :: rest) pre.length src dsize).Yields
      [.write pre.length ((src.take (dsize - 1)).length + 1) (pre ++ 0 :: rest).length]
      (src.length,
        pre ++ ((src.take (dsize - 1) ++ [0]) ++ rest.drop (src.take (dsize - 1)).length)) := by
  simpa using strlcat_yields pre (t := []) rest nulFree_nil hs (by simpa using hpos)
    (by simpa using hroom)

end CMem
