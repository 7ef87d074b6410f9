import Backtracie.Foundations.Memory

/-!
# A heap of C objects

The objects that are allocated, by their addresses, and pointers into them. A computation on the
heap (`HeapComp`) ends in a fault when it uses a pointer to an object that is not allocated, or not
any more (`HeapFault`). `realloc` may leave an object where it is or move it, as a parameter says.

`Simulates R h m c` compares a computation on the heap with one on a single object (`Comp`): both
make the same accesses, and end in values related by `R`, or in the same fault. So `m` does not end
in a fault of the heap. `Simulates.bind` composes such comparisons.
-/

universe u v w

namespace Traced

variable {ε : Type u} {φ ψ : Type v} {α β : Type w}

/-- The same computation with other faults. -/
def mapFault (g : φ → ψ) (m : Traced ε φ α) : Traced ε ψ α := ⟨m.trace, m.result.mapError g⟩

theorem mapFault_bind (g : φ → ψ) (m : Traced ε φ α) (f : α → Traced ε φ β) :
    mapFault g (m >>= f) = mapFault g m >>= fun a => mapFault g (f a) := by
  rcases m with ⟨tr, _ | a⟩ <;> rfl

end Traced

namespace CMem

open Traced

/-- The objects that are allocated. No object was handed out yet at an address from `next` on. -/
structure Heap where
  object : ℕ → Option Bytes
  next : ℕ
  unused : ∀ b, next ≤ b → object b = none

/-- A pointer into the object at the address `block`. -/
structure Ptr where
  block : ℕ
  off : ℕ
  deriving DecidableEq

/-- The abnormal ends of a computation on the heap. -/
inductive HeapFault
  /-- As on a single object. -/
  | of (e : Fault)
  /-- A pointer is used whose object is not allocated. -/
  | dangling (p : Ptr)
  /-- A pointer is handed to `free` or `realloc` that is not the start of an allocated object. -/
  | notAllocated (p : Ptr)
  /-- A difference of pointers that do not point into one object, or would be below zero. -/
  | unrelated (p q : Ptr)
  deriving DecidableEq

/-- Computations on the heap. -/
abbrev HeapComp := StateT Heap (Traced Access HeapFault)

/-- The object at `b` is given the contents `buf`. -/
def Heap.write (h : Heap) (b : ℕ) (buf : Bytes) : Heap where
  object a := if a = b ∧ (h.object b).isSome then some buf else h.object a
  next := h.next
  unused a ha := by
    have hnone := h.unused a ha
    rw [if_neg, hnone]
    rintro ⟨rfl, hsome⟩
    rw [hnone] at hsome
    cases hsome

/-- A new object. -/
def Heap.alloc (h : Heap) (buf : Bytes) : Heap where
  object a := if a = h.next then some buf else h.object a
  next := h.next + 1
  unused a ha := by
    rw [if_neg (Nat.ne_of_gt ha)]
    exact h.unused a (Nat.le_of_succ_le ha)

/-- The object at `b` is gone. -/
def Heap.release (h : Heap) (b : ℕ) : Heap where
  object a := if a = b then none else h.object a
  next := h.next
  unused a ha := by rw [h.unused a ha, ite_self]

/-- The objects other than the one at `b`. -/
def Heap.without (h : Heap) (b : ℕ) : ℕ → Option Bytes :=
  fun a => if a = b then none else h.object a

/-! ## Operations -/

section

variable {α : Type}

/-- A computation that does not touch the heap. -/
def HeapComp.of (c : Comp α) : HeapComp α := fun h =>
  c.mapFault .of >>= fun a => pure (a, h)

/-- Let `f` work on the object that `p` points into, at the offset of `p`. -/
def Ptr.access (p : Ptr) (f : Bytes → ℕ → Comp (α × Bytes)) : HeapComp α := fun h =>
  match h.object p.block with
  | none => fault (.dangling p)
  | some buf => (f buf p.off).mapFault .of >>= fun r => pure (r.1, h.write p.block r.2)

/-- `p + n`. -/
def Ptr.add (p : Ptr) (n : ℕ) : Ptr := { p with off := p.off + n }

/-- `p - q`. -/
def Ptr.sub (p q : Ptr) : HeapComp ℕ := fun h =>
  if p.block = q.block ∧ q.off ≤ p.off then pure (p.off - q.off, h) else fault (.unrelated p q)

/-- As `access`, for a function that only changes the object. -/
def Ptr.update (p : Ptr) (f : Bytes → ℕ → Comp Bytes) : HeapComp Unit :=
  p.access fun buf off => f buf off >>= fun buf => pure ((), buf)

/-- As `access`, for a function that only reads the object. -/
def Ptr.read (p : Ptr) (f : Bytes → ℕ → Comp α) : HeapComp α :=
  p.access fun buf off => f buf off >>= fun a => pure (a, buf)

/-- `store` at a pointer. -/
def Ptr.store (p : Ptr) (src : Bytes) : HeapComp Unit :=
  p.update fun buf off => CMem.store buf off src

/-- `memcpy` to a pointer. -/
def Ptr.memcpy (p : Ptr) (src : Bytes) (n : ℕ) : HeapComp Unit :=
  p.update fun buf off => CMem.memcpy buf off src n

/-- `strlcat` to a pointer. -/
def Ptr.strlcat (p : Ptr) (src : Bytes) (dsize : ℕ) : HeapComp ℕ :=
  p.access fun buf off => CMem.strlcat buf off src dsize

/-- `malloc(n)`, with the contents of fresh memory. -/
def Heap.malloc (junk : ℕ → UInt8) (n : ℕ) : HeapComp Ptr := fun h =>
  pure (⟨h.next, 0⟩, h.alloc (CMem.malloc junk n))

/-- `free(p)`. -/
def Heap.free (p : Ptr) : HeapComp Unit := fun h =>
  if p.off = 0 ∧ (h.object p.block).isSome then pure ((), h.release p.block)
  else fault (.notAllocated p)

/-- `realloc(p, n)`: where `stays` says so, the object stays at its address. -/
def Heap.realloc (stays : ℕ → ℕ → Bool) (junk : ℕ → UInt8) (p : Ptr) (n : ℕ) : HeapComp Ptr :=
  fun h =>
    match h.object p.block with
    | none => fault (.notAllocated p)
    | some buf =>
      if p.off ≠ 0 then fault (.notAllocated p)
      else if stays p.block n then pure (p, h.write p.block (CMem.realloc junk buf n))
      else pure (⟨h.next, 0⟩, (h.release p.block).alloc (CMem.realloc junk buf n))

end

/-! ## The heap after an operation -/

section

variable {h : Heap} {b : ℕ} {buf buf' : Bytes}

theorem Heap.object_write (hb : h.object b = some buf) : (h.write b buf').object b = some buf' :=
  if_pos ⟨rfl, by rw [hb]; rfl⟩

theorem Heap.without_write : (h.write b buf').without b = h.without b := by
  funext a
  unfold Heap.without
  split
  · rfl
  · next hne => exact if_neg fun h => hne h.1

theorem Heap.without_alloc : (h.alloc buf).without h.next = h.object := by
  funext a
  unfold Heap.without
  split
  · next heq => rw [heq, h.unused h.next le_rfl]
  · next hne => exact if_neg hne

end

/-! ## Computations on the heap and on one object -/

section

variable {α β γ δ : Type}

/-- From the heap `h`, the computation `m` makes the accesses of `c` and ends in the fault of `c`
or with a value and a heap that are related to the value of `c`. -/
def Simulates (R : α → Heap → β → Prop) (h : Heap) (m : HeapComp α) (c : Comp β) : Prop :=
  Matches (fun x b => R x.1 x.2 b) (m h) (c.mapFault .of)

namespace Simulates

variable {R : α → Heap → β → Prop} {S : γ → Heap → δ → Prop} {h : Heap} {m : HeapComp α}
  {c : Comp β}

theorem pure {a : α} {b : β} (hab : R a h b) :
    Simulates R h (Pure.pure a : HeapComp α) (Pure.pure b) :=
  .ok [] hab

theorem bind {f : α → HeapComp γ} {g : β → Comp δ} (hm : Simulates R h m c)
    (hfg : ∀ a h' b, R a h' b → Simulates S h' (f a) (g b)) :
    Simulates S h (m >>= f) (c >>= g) := by
  unfold Simulates
  rw [mapFault_bind]
  exact Matches.bind hm fun x b hxb => hfg x.1 x.2 b hxb

/-- Where the computation on one object returns, so does the one on the heap. -/
theorem returns {b : β} (hm : Simulates R h m c) (hc : c.result = .ok b) :
    ∃ tr a h', m h = ⟨tr, .ok (a, h')⟩ ∧ R a h' b := by
  unfold Simulates at hm
  rcases c with ⟨tr, r⟩
  obtain rfl : r = .ok b := hc
  change Matches _ _ ⟨tr, .ok b⟩ at hm
  generalize m h = x at hm ⊢
  cases hm with
  | ok _ hab => exact ⟨_, _, _, rfl, hab⟩

/-- A step of the heap alone, that makes no access. -/
theorem step {a : α} {h' : Heap} {f : α → HeapComp γ} {d : Comp δ}
    (hm : m h = Pure.pure (a, h')) (hf : Simulates S h' (f a) d) : Simulates S h (m >>= f) d := by
  unfold Simulates
  have hrun : (m >>= f) h = f a h' := by
    show m h >>= (fun x => f x.1 x.2) = f a h'
    rw [hm, pure_bind]
  rw [hrun]
  exact hf

theorem mono {S : α → Heap → β → Prop} (hm : Simulates R h m c)
    (hRS : ∀ a h' b, R a h' b → S a h' b) : Simulates S h m c :=
  Matches.mono hm fun x b => hRS x.1 x.2 b

theorem fault (e : Fault) :
    Simulates R h (HeapComp.of (Traced.fault e)) (Traced.fault e) :=
  .error [] _

/-- A computation that does not touch the heap. -/
theorem of (c : Comp α) : Simulates (fun a h' b => a = b ∧ h' = h) h (HeapComp.of c) c := by
  rcases c with ⟨tr, e | a⟩
  · exact .error tr _
  · unfold Simulates HeapComp.of mapFault
    simp only [Except.mapError, mk_ok_bind, pure_trace, pure_result, List.append_nil]
    exact .ok tr ⟨rfl, rfl⟩

/-- A computation on the object that a pointer points into. -/
theorem access {p : Ptr} {buf : Bytes} (hbuf : h.object p.block = some buf)
    (f : Bytes → ℕ → Comp (α × Bytes)) :
    Simulates (fun a h' r => a = r.1 ∧ h' = h.write p.block r.2) h (p.access f) (f buf p.off) := by
  have hrun : p.access f h =
      (f buf p.off).mapFault .of >>= fun r => Pure.pure (r.1, h.write p.block r.2) := by
    unfold Ptr.access
    rw [hbuf]
  unfold Simulates
  rw [hrun]
  rcases f buf p.off with ⟨tr, e | r⟩
  · exact .error tr _
  · simp only [mapFault, Except.mapError, mk_ok_bind, pure_trace, pure_result, List.append_nil]
    exact .ok tr ⟨rfl, rfl⟩

/-- What is made of the value at the end does not matter to the run. -/
theorem of_pure {g : β → δ} {T : α → Heap → δ → Prop}
    (hm : Simulates T h m (c >>= fun b => Pure.pure (g b))) :
    Simulates (fun a h' b => T a h' (g b)) h m c := by
  unfold Simulates at *
  rw [mapFault_bind] at hm
  rcases c with ⟨tr, e | b⟩
  · change Matches _ _ ⟨tr, .error (HeapFault.of e)⟩ at hm
    generalize m h = r at hm ⊢
    cases hm with
    | error => exact .error tr _
  · change Matches _ _ ⟨tr ++ [], .ok (g b)⟩ at hm
    rw [List.append_nil] at hm
    generalize m h = r at hm ⊢
    cases hm with
    | ok _ hx => exact .ok tr hx

/-- A function that changes the object that a pointer points into. -/
theorem update {p : Ptr} {buf : Bytes} (hbuf : h.object p.block = some buf)
    (f : Bytes → ℕ → Comp Bytes) :
    Simulates (fun _ h' buf' => h' = h.write p.block buf') h (p.update f) (f buf p.off) :=
  (of_pure (access hbuf fun buf off => f buf off >>= fun buf => Pure.pure ((), buf))).mono
    fun _ _ _ hr => hr.2

end Simulates

end

end CMem
