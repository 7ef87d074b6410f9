import Backtracie.HeapBuilder
import Backtracie.Queries
import Backtracie.Lawful

/-!
# The queries on the heap

The functions of the public interface with the builder of `OnHeap`: a `…Rbstr` function allocates a
buffer, which its appends may move, and frees it; a `…Cstr` function writes to an object of its
caller.

* `rbstr_functions_on_heap`: a `…Rbstr` function makes the accesses of the model with offsets and
  returns the same, and leaves the heap as it was;
* `cstr_functions_on_heap`: so does a `…Cstr` function, which changes the object of its caller only.
-/

namespace Backtracie

open CMem Traced

namespace OnHeap

section

variable (stays : ℕ → ℕ → Bool) (junk : ℕ → UInt8) {α : Type}

/-- Hand the builder to a function that appends to it. -/
def onBuilder (str : Strbuilder) (write : Emit α) : HeapComp (α × Strbuilder) := do
  let str ← strbuilderAppendPieces stays junk str write.trace
  let a ← HeapComp.of (lift write.result)
  pure (a, str)

/-- The body of a `…_cstr` function, on the buffer of its caller. -/
def cstrQuery (buf : Ptr) (buflen : ℕ) (write : Emit α) : HeapComp ℕ := do
  let str ← strbuilderInit buf buflen
  let (_, str) ← onBuilder stays junk str write
  pure str.attemptedSize

/-- The end of `backtracie_frame_name_rbstr`: the string is made before the buffer is freed. -/
def finishValue (str : Strbuilder) : HeapComp RString := do
  let ret ← strbuilderToValue str
  strbuilderFreeGrowable str
  pure ret

/-- The end of the other `…_rbstr` functions. -/
def finishFound (found : Bool) (str : Strbuilder) : HeapComp (Option RString) := do
  let ret ← if found then some <$> strbuilderToValue str else pure none
  strbuilderFreeGrowable str
  pure ret

/-- The body of these. -/
def rbstrQuery (write : Emit Bool) : HeapComp (Option RString) := do
  let str ← strbuilderInitGrowable junk initialBufsize
  let (found, str) ← onBuilder stays junk str write
  finishFound found str

/-- The body of `backtracie_frame_name_rbstr`. -/
def frameNameRbstr (write : Emit Unit) : HeapComp RString := do
  let str ← strbuilderInitGrowable junk initialBufsize
  let (_, str) ← onBuilder stays junk str write
  finishValue str

end

end OnHeap

/-- A function of the interface that returns a Ruby string, with its arguments. -/
inductive RbstrFunction
  | frameName (minLoc : MinimalLocation) (loc : RawLocation)
  | frameFilename (loc : RawLocation) (absolute : Bool)
  | frameLabel (loc : RawLocation) (base : Bool)

section

variable (stays : ℕ → ℕ → Bool) (junk : ℕ → UInt8) (rt : Runtime) (depth : ℕ)

/-- The function, with offsets for pointers. -/
def RbstrFunction.call : RbstrFunction → Comp (Option RString)
  | .frameName minLoc loc => do
    let ret ← frameNameRbstr junk rt depth minLoc loc
    pure (some ret)
  | .frameFilename loc absolute => frameFilenameRbstr junk rt loc absolute
  | .frameLabel loc base => frameLabelRbstr junk rt loc base

/-- The function on the heap. -/
def RbstrFunction.callOnHeap : RbstrFunction → HeapComp (Option RString)
  | .frameName minLoc loc => do
    let ret ← OnHeap.frameNameRbstr stays junk (Backtracie.frameName rt depth minLoc loc)
    pure (some ret)
  | .frameFilename loc absolute =>
    OnHeap.rbstrQuery stays junk (Backtracie.frameFilename rt.toVM loc absolute)
  | .frameLabel loc base =>
    OnHeap.rbstrQuery stays junk (Backtracie.frameLabel rt.toVM loc base)

/-- A `…Cstr` function on the heap, with the arguments `buf` and `buflen`. -/
def CstrFunction.callOnHeap (f : CstrFunction) (buf : Ptr) (buflen : ℕ) : HeapComp ℕ :=
  OnHeap.cstrQuery stays junk buf buflen (f.writes rt depth)

end

namespace OnHeap

variable {stays : ℕ → ℕ → Bool} {junk : ℕ → UInt8} {others : ℕ → Option Bytes} {home : Option Ptr}
  {h : Heap} {p : Strbuilder} {str : Backtracie.Strbuilder} {buf : Bytes} {q : Ptr} {α : Type}

/-! ## Setting a builder up -/

theorem terminateEmpty_simulates (hbuf : h.object q.block = some buf) (hstart : q.off = 0)
    (bufsize : ℕ) :
    Simulates (fun _ h' buf' =>
        h'.object q.block = some buf' ∧ h'.without q.block = h.without q.block) h
      (terminateEmpty q bufsize) (Backtracie.terminateEmpty buf bufsize) := by
  unfold terminateEmpty Backtracie.terminateEmpty
  split
  · have hstore := Simulates.update hbuf fun buf off => CMem.store buf off [0]
    rw [hstart] at hstore
    refine hstore.mono fun _ h' buf' => ?_
    rintro rfl
    exact ⟨Heap.object_write hbuf, Heap.without_write⟩
  · exact Simulates.pure ⟨hbuf, rfl⟩

/-- A builder on an object of the caller. -/
theorem init_simulates (hbuf : h.object q.block = some buf) (hstart : q.off = 0) :
    Simulates (Represents (h.without q.block) (some q)) h
      (strbuilderInit q buf.length) (Backtracie.strbuilderInit buf buf.length) := by
  apply (terminateEmpty_simulates hbuf hstart buf.length).bind
  rintro _ h' buf' ⟨hbuf', hrest⟩
  exact Simulates.pure ⟨hstart, rfl, hstart, hbuf', hrest, rfl, rfl, rfl, fun _ hq =>
    ⟨Option.some.inj hq, rfl⟩⟩

/-- A builder on a new object. -/
theorem initGrowable_simulates (initialBufsize : ℕ) :
    Simulates (Represents h.object none) h (strbuilderInitGrowable junk initialBufsize)
      (Backtracie.strbuilderInitGrowable junk initialBufsize) := by
  have hmalloc : Heap.malloc junk initialBufsize h =
      pure (⟨h.next, 0⟩, h.alloc (CMem.malloc junk initialBufsize)) := rfl
  apply Simulates.step hmalloc
  apply (terminateEmpty_simulates (q := ⟨h.next, 0⟩) (if_pos rfl) rfl initialBufsize).bind
  rintro _ h' buf' ⟨hbuf', hrest⟩
  exact Simulates.pure ⟨rfl, rfl, rfl, hbuf', hrest.trans Heap.without_alloc, rfl, rfl, rfl,
    fun _ hq => nomatch hq⟩

/-! ## Writing, and the end -/

theorem onBuilder_simulates (hr : Represents others home p h str) (write : Emit α) :
    Simulates (fun x h' y => x.1 = y.1 ∧ Represents others home x.2 h' y.2) h
      (onBuilder stays junk p write) (Backtracie.onBuilder junk str write) := by
  apply (appendPieces_simulates hr write.trace).bind
  intro p' h' str' hr'
  apply (Simulates.of (lift write.result)).bind
  rintro a _ _ ⟨rfl, rfl⟩
  exact Simulates.pure ⟨rfl, hr'⟩

theorem toValue_simulates (hr : Represents others home p h str) :
    Simulates (fun ret h' ret' => ret = ret' ∧ Represents others home p h' str) h
      (strbuilderToValue p) (Backtracie.strbuilderToValue str) :=
  Simulates.of_pure (hr.access rfl fun buf _ =>
    (if 0 ∈ buf then pure (rbStrNew2 buf) else fault (.wild buf.length 1 buf.length)) >>=
      fun a => pure (a, buf))

/-- The buffer is freed: what is left on the heap are the other objects. -/
theorem freeGrowable_simulates (hr : Represents others home p h str) :
    Simulates (fun _ h' _ => h'.object = others) h (strbuilderFreeGrowable p)
      (Backtracie.strbuilderFreeGrowable str) := by
  unfold strbuilderFreeGrowable Backtracie.strbuilderFreeGrowable
  by_cases hgrowable : str.growable = true
  · rw [if_pos hgrowable, if_pos (hr.growable.trans hgrowable)]
    have hfree : Heap.free p.originalBuf h = pure ((), h.release p.originalBuf.block) :=
      if_pos ⟨hr.start, by rw [hr.buf]; rfl⟩
    unfold Simulates
    rw [hfree]
    exact .ok [] hr.rest
  · rw [if_neg hgrowable, if_neg fun h => hgrowable (hr.growable.symm.trans h)]
    exact Simulates.fault _

/-- The end of a `…Rbstr` function that returns `ret`. -/
theorem freeAndReturn_simulates (hr : Represents others home p h str) (ret : α) :
    Simulates (fun a h' b => a = b ∧ h'.object = others) h
      (strbuilderFreeGrowable p >>= fun _ => pure ret)
      (Backtracie.strbuilderFreeGrowable str >>= fun _ => pure ret) := by
  apply (freeGrowable_simulates hr).bind
  intro _ h' _ hobject
  exact Simulates.pure ⟨rfl, hobject⟩

theorem finishValue_simulates (hr : Represents others home p h str) :
    Simulates (fun ret h' ret' => ret = ret' ∧ h'.object = others) h (finishValue p)
      (Backtracie.finishValue str) := by
  apply (toValue_simulates hr).bind
  rintro ret h' _ ⟨rfl, hr'⟩
  exact freeAndReturn_simulates hr' ret

theorem finishFound_simulates (hr : Represents others home p h str) (found : Bool) :
    Simulates (fun ret h' ret' => ret = ret' ∧ h'.object = others) h (finishFound found p)
      (Backtracie.finishFound found str) := by
  unfold finishFound Backtracie.finishFound
  cases found with
  | false =>
    simp only [Bool.false_eq_true, if_false, pure_bind]
    exact freeAndReturn_simulates hr none
  | true =>
    simp only [if_true, map_eq_pure_bind, bind_assoc, pure_bind]
    apply (toValue_simulates hr).bind
    rintro ret h' _ ⟨rfl, hr'⟩
    exact freeAndReturn_simulates hr' (some ret)

theorem rbstrQuery_simulates (write : Emit Bool) :
    Simulates (fun ret h' ret' => ret = ret' ∧ h'.object = h.object) h
      (rbstrQuery stays junk write) (Backtracie.rbstrQuery junk write) := by
  apply (initGrowable_simulates initialBufsize).bind
  intro p h' str hr
  apply (onBuilder_simulates hr write).bind
  rintro ⟨found, p'⟩ h'' ⟨_, str'⟩ ⟨rfl, hr'⟩
  exact finishFound_simulates hr' found

end OnHeap

/-- **A `…Rbstr` function leaves the heap as it was.** With a buffer on the heap, which `realloc`
moves or not, each such function makes the same accesses as with offsets for pointers, and returns
the same or ends in the same fault: no pointer into a buffer that was moved or freed is used. When
it returns, the heap holds the objects it held before: the buffer has been freed, once. -/
theorem rbstr_functions_on_heap (stays : ℕ → ℕ → Bool) (junk : ℕ → UInt8) (rt : Runtime)
    (depth : ℕ) (f : RbstrFunction) (h : Heap) :
    Simulates (fun ret h' ret' => ret = ret' ∧ h'.object = h.object) h
      (f.callOnHeap stays junk rt depth) (f.call junk rt depth) := by
  cases f with
  | frameName minLoc loc =>
    have hname : Simulates (fun ret h' ret' => ret = ret' ∧ h'.object = h.object) h
        (OnHeap.frameNameRbstr stays junk (frameName rt depth minLoc loc))
        (frameNameRbstr junk rt depth minLoc loc) := by
      apply (OnHeap.initGrowable_simulates initialBufsize).bind
      intro p h' str hr
      apply (OnHeap.onBuilder_simulates hr (frameName rt depth minLoc loc)).bind
      rintro ⟨_, p'⟩ h'' ⟨_, str'⟩ ⟨-, hr'⟩
      exact OnHeap.finishValue_simulates hr'
    apply hname.bind
    rintro ret h' _ ⟨rfl, hobject⟩
    exact Simulates.pure ⟨rfl, hobject⟩
  | frameFilename loc absolute => exact OnHeap.rbstrQuery_simulates _
  | frameLabel loc base => exact OnHeap.rbstrQuery_simulates _

/-- **A `…Cstr` function changes the object of its caller only.** For a buffer that is a whole
object of the heap, from its first byte on and with its length for `buflen`, each such function
makes the same accesses as with offsets for pointers, returns the same length or ends in the same
fault, and leaves the same bytes in the buffer. All other objects are as they were. -/
theorem cstr_functions_on_heap (stays : ℕ → ℕ → Bool) (junk : ℕ → UInt8) (rt : Runtime)
    (depth : ℕ) (f : CstrFunction) (h : Heap) (q : Ptr) (buf : Bytes)
    (hbuf : h.object q.block = some buf) (hstart : q.off = 0) :
    Simulates (fun n h' r => n = r.1 ∧ h'.object q.block = some r.2 ∧
        h'.without q.block = h.without q.block) h
      (f.callOnHeap stays junk rt depth q buf.length) (f.call junk rt depth buf) := by
  rw [f.call_eq]
  apply (OnHeap.init_simulates hbuf hstart).bind
  intro p h' str hr
  apply (OnHeap.onBuilder_simulates hr (f.writes rt depth)).bind
  rintro ⟨_, p'⟩ h'' ⟨_, str'⟩ ⟨-, hr'⟩
  obtain ⟨rfl, -⟩ := hr'.fixed q rfl
  exact Simulates.pure ⟨hr'.attempted, hr'.buf, hr'.rest⟩

/-- A heap with one object of twelve bytes. -/
def twelveByteHeap : Heap where
  object b := if b = 0 then some (List.replicate 12 1) else none
  next := 1
  unused _ hb := if_neg (Nat.ne_of_gt hb)

/-- The name of a method of an object, written to those bytes. -/
theorem cstr_functions_on_heap_rubyFrame :
    ∃ tr n h', (CstrFunction.frameName MinimalLocation.zeroed
        (locationOfFrame (bootRuntime (bootThread false [rubyFrame 80])) (rubyFrame 80))).callOnHeap
        (fun _ _ => false) (fun _ => 1) (bootRuntime (bootThread false [rubyFrame 80])) 1 ⟨0, 0⟩ 12
        twelveByteHeap = ⟨tr, .ok (n, h')⟩ ∧
      n = 8 ∧ h'.object 0 = some (lit "Object#m" ++ [0, 1, 1, 1]) := by
  have hsim := cstr_functions_on_heap (fun _ _ => false) (fun _ => 1)
    (bootRuntime (bootThread false [rubyFrame 80])) 1 (.frameName MinimalLocation.zeroed
      (locationOfFrame (bootRuntime (bootThread false [rubyFrame 80])) (rubyFrame 80)))
    twelveByteHeap ⟨0, 0⟩ (List.replicate 12 1) rfl rfl
  obtain ⟨tr, n, h', hrun, hn, hbuf, -⟩ :=
    hsim.returns (b := (8, lit "Object#m" ++ [0, 1, 1, 1])) rfl
  exact ⟨tr, n, h', hrun, hn, hbuf⟩

end Backtracie
