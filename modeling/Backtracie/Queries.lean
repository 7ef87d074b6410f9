import Backtracie.Naming
import Backtracie.StrbuilderFixed
import Backtracie.StrbuilderGrowable

/-!
# The queries of the public interface

What `backtracie.h` offers to ask about a captured frame. A `…Cstr` function writes to a buffer of
its caller and returns the length of the whole text; a `…Rbstr` function uses a growable builder of
256 bytes and returns a Ruby string.

* `CstrFunction.call_eq`, `cstrQuery_of_ok`: a `…Cstr` function is its appends on the caller's
  buffer;
* `rbstrQuery_returns`: a `…Rbstr` function returns when its appends are appends of strings.
-/

namespace Backtracie

open CMem Traced

/-! ## Builders and what is written to them -/

section

variable (junk : ℕ → UInt8) {α : Type}

/-- Hand the builder to a function that appends to it. -/
def onBuilder (str : Strbuilder) (write : Emit α) : Comp (α × Strbuilder) := do
  let str ← strbuilderAppendPieces junk str write.trace
  let a ← lift write.result
  pure (a, str)

/-- A builder on the buffer of the caller, what is written to it, and its `attempted_size`. -/
def cstrQuery (buf : Bytes) (write : Emit α) : Comp (ℕ × Bytes) := do
  let str ← strbuilderInit buf buf.length
  let (_, str) ← onBuilder junk str write
  pure str.contents

/-- The initial size of a growable buffer. -/
def initialBufsize : ℕ := 256

theorem initialBufsize_pos : 1 ≤ initialBufsize := Nat.le_add_left 1 255

/-- The end of a `…Rbstr` function: the Ruby string is made and the builder freed. -/
def finishValue (str : Strbuilder) : Comp RString := do
  let ret ← strbuilderToValue str
  strbuilderFreeGrowable str
  pure ret

/-- As `finishValue`, where the string is only made if something was found to write. -/
def finishFound (found : Bool) (str : Strbuilder) : Comp (Option RString) := do
  let ret ← if found then some <$> strbuilderToValue str else pure none
  strbuilderFreeGrowable str
  pure ret

/-- A growable builder, what is written to it, and the Ruby string made of it. -/
def rbstrQuery (write : Emit Bool) : Comp (Option RString) := do
  let str ← strbuilderInitGrowable junk initialBufsize
  let (found, str) ← onBuilder junk str write
  finishFound found str

end

/-! ## The functions -/

section

variable (junk : ℕ → UInt8) (rt : Runtime) (depth : ℕ)

/-- What the two functions for the name of a frame write; `minLoc` is what their local variable
`min_loc` holds before it is assigned. -/
def frameName (minLoc : MinimalLocation) (loc : RawLocation) : Emit Unit := do
  let minLoc ← lift (rawLocationToMinimalLocation rt loc minLoc)
  minimalLocationName rt depth minLoc

/-- `backtracie_frame_name_cstr`. -/
def frameNameCstr (minLoc : MinimalLocation) (loc : RawLocation) (buf : Bytes) : Comp (ℕ × Bytes) :=
  cstrQuery junk buf (frameName rt depth minLoc loc)

/-- `backtracie_frame_name_rbstr`. -/
def frameNameRbstr (minLoc : MinimalLocation) (loc : RawLocation) : Comp RString := do
  let str ← strbuilderInitGrowable junk initialBufsize
  let (_, str) ← onBuilder junk str (frameName rt depth minLoc loc)
  finishValue str

/-- `backtracie_frame_filename_cstr`. -/
def frameFilenameCstr (loc : RawLocation) (absolute : Bool) (buf : Bytes) : Comp (ℕ × Bytes) :=
  cstrQuery junk buf (frameFilename rt.toVM loc absolute)

/-- `backtracie_frame_filename_rbstr`. -/
def frameFilenameRbstr (loc : RawLocation) (absolute : Bool) : Comp (Option RString) :=
  rbstrQuery junk (frameFilename rt.toVM loc absolute)

/-- `backtracie_frame_label_cstr`. -/
def frameLabelCstr (loc : RawLocation) (base : Bool) (buf : Bytes) : Comp (ℕ × Bytes) :=
  cstrQuery junk buf (frameLabel rt.toVM loc base)

/-- `backtracie_frame_label_rbstr`. -/
def frameLabelRbstr (loc : RawLocation) (base : Bool) : Comp (Option RString) :=
  rbstrQuery junk (frameLabel rt.toVM loc base)

/-- `backtracie_minimal_frame_name_cstr`. -/
def minimalFrameNameCstr (loc : MinimalLocation) (buf : Bytes) : Comp (ℕ × Bytes) :=
  cstrQuery junk buf (minimalLocationName rt depth loc)

/-- What `backtracie_minimal_frame_filename_cstr` writes. -/
def minimalFrameFilename (loc : MinimalLocation) : Emit Unit :=
  if rtest loc.filename then appendValue rt.toVM loc.filename else pure ()

/-- `backtracie_minimal_frame_filename_cstr`. -/
def minimalFrameFilenameCstr (loc : MinimalLocation) (buf : Bytes) : Comp (ℕ × Bytes) :=
  cstrQuery junk buf (minimalFrameFilename rt loc)

/-- A function of the interface that writes to a buffer of its caller, with its arguments. -/
inductive CstrFunction
  | frameName (minLoc : MinimalLocation) (loc : RawLocation)
  | frameFilename (loc : RawLocation) (absolute : Bool)
  | frameLabel (loc : RawLocation) (base : Bool)
  | minimalFrameName (loc : MinimalLocation)
  | minimalFrameFilename (loc : MinimalLocation)

/-- The appends of the function. -/
def CstrFunction.writes : CstrFunction → Emit Unit
  | .frameName minLoc loc => Backtracie.frameName rt depth minLoc loc
  | .frameFilename loc absolute => discard (Backtracie.frameFilename rt.toVM loc absolute)
  | .frameLabel loc base => discard (Backtracie.frameLabel rt.toVM loc base)
  | .minimalFrameName loc => minimalLocationName rt depth loc
  | .minimalFrameFilename loc => Backtracie.minimalFrameFilename rt loc

/-- The function itself. -/
def CstrFunction.call : CstrFunction → Bytes → Comp (ℕ × Bytes)
  | .frameName minLoc loc => frameNameCstr junk rt depth minLoc loc
  | .frameFilename loc absolute => frameFilenameCstr junk rt loc absolute
  | .frameLabel loc base => frameLabelCstr junk rt loc base
  | .minimalFrameName loc => minimalFrameNameCstr junk rt depth loc
  | .minimalFrameFilename loc => minimalFrameFilenameCstr junk rt loc

/-- `iseq_is_eval(iseq)`. -/
def iseqIsEval (iseq : VALUE) : Except Fault Bool :=
  if iseq = 0 then .ok false
  else do
    let body ← rt.derefIseq iseq
    pure (iseqTypeIsEval body.type.code)

/-- `cme && cme->def->type != VM_METHOD_TYPE_ISEQ`. -/
def cmeIsNotIseq (cme : VALUE) : Except Fault Bool :=
  if cme = 0 then .ok false
  else do
    let cme ← rt.derefMethodEntry cme
    pure (cme.defType ≠ .iseq)

/-- `backtracie_frame_for_rb_profile`. -/
def frameForRbProfile (loc : RawLocation) : Except Fault VALUE := do
  let iseq : VALUE := if rtest loc.iseq then loc.iseq else 0
  let cme : VALUE := 0
  -- `cme = (rb_callable_method_entry_t *)cme`: the variable is assigned to itself
  let cme := if rtest loc.callableMethodEntry then cme else cme
  if ← iseqIsEval rt iseq then pure loc.iseq
  else if ← cmeIsNotIseq rt cme then pure loc.callableMethodEntry
  else if iseq ≠ 0 then pure loc.iseq
  else pure qnil

end

/-! ## What a query returns -/

section

variable (junk : ℕ → UInt8) {α : Type} {buf : Bytes} {write : Emit α}

theorem onBuilder_of_ok {a : α} {str : Strbuilder} (h : write.result = .ok a) :
    onBuilder junk str write =
      strbuilderAppendPieces junk str write.trace >>= fun str => pure (a, str) := by
  unfold onBuilder
  rw [h]
  rfl

/-- A query that writes without a fault is a sequence of appends to the caller's buffer. -/
theorem cstrQuery_of_ok {a : α} (h : write.result = .ok a) :
    cstrQuery junk buf write = writePieces junk buf write.trace := by
  unfold cstrQuery writePieces
  simp only [onBuilder_of_ok junk h, bind_assoc, pure_bind]

/-- What becomes of the value that is returned does not matter to the caller's buffer. -/
theorem cstrQuery_discard : cstrQuery junk buf (discard write) = cstrQuery junk buf write := by
  have hdiscard : (discard write : Emit Unit) = ⟨write.trace, write.result.map fun _ => ()⟩ := by
    rcases write with ⟨tr, _ | a⟩
    · rfl
    · exact congrArg (fun tr' => (⟨tr', .ok ()⟩ : Emit Unit)) (List.append_nil tr)
  unfold cstrQuery onBuilder
  rw [hdiscard]
  rcases write.result with e | a <;> simp only [bind_assoc] <;> rfl

/-- **A function that writes to a buffer of its caller** puts its appends on a builder there. -/
theorem CstrFunction.call_eq (f : CstrFunction) (rt : Runtime) (depth : ℕ) :
    f.call junk rt depth buf = cstrQuery junk buf (f.writes rt depth) := by
  cases f with
  | frameName minLoc loc => rfl
  | frameFilename loc absolute => exact (cstrQuery_discard junk).symm
  | frameLabel loc base => exact (cstrQuery_discard junk).symm
  | minimalFrameName loc => rfl
  | minimalFrameFilename loc => rfl

theorem Grows.finishValue {text : Bytes} {str : Strbuilder} (h : Grows text str) :
    finishValue str = pure (rbStrNew2 text) := by
  unfold Backtracie.finishValue
  rw [h.toValue, strbuilderFreeGrowable, if_pos h.growable]
  rfl

theorem Grows.finishFound {text : Bytes} {str : Strbuilder} (h : Grows text str) (found : Bool) :
    finishFound found str = pure (if found then some (rbStrNew2 text) else none) := by
  unfold Backtracie.finishFound
  rw [h.toValue, strbuilderFreeGrowable, if_pos h.growable]
  cases found <;> rfl

/-- A `…Rbstr` function that writes without a fault appends to a growable builder. -/
theorem rbstrQuery_of_ok {write : Emit Bool} {found : Bool} (h : write.result = .ok found) :
    rbstrQuery junk write = growPieces junk initialBufsize write.trace >>= finishFound found := by
  unfold rbstrQuery growPieces
  simp only [onBuilder_of_ok junk h, bind_assoc, pure_bind]

theorem frameNameRbstr_of_ok {rt : Runtime} {depth : ℕ} {minLoc : MinimalLocation}
    {loc : RawLocation} (h : (frameName rt depth minLoc loc).result = .ok ()) :
    frameNameRbstr junk rt depth minLoc loc =
      growPieces junk initialBufsize (frameName rt depth minLoc loc).trace >>= finishValue := by
  unfold frameNameRbstr growPieces
  simp only [onBuilder_of_ok junk h, bind_assoc, pure_bind]

omit junk in
/-- **A `…Rbstr` function returns** when it writes strings without a fault: a string if it found
one to write, whatever the heap held before. -/
theorem rbstrQuery_returns {write : Emit Bool} {found : Bool} (h : write.result = .ok found)
    (hproper : ∀ p ∈ write.trace, p.Proper) :
    ∃ ret : Option RString, ret.isSome = found ∧
      ∀ junk, (rbstrQuery junk write).result = .ok ret := by
  obtain ⟨text, -, -, hrun⟩ := growPieces_iff initialBufsize_pos hproper
  refine ⟨if found then some (rbStrNew2 text) else none, by cases found <;> rfl, fun junk => ?_⟩
  obtain ⟨tr, str, hy, -, hg⟩ := hrun junk
  rw [rbstrQuery_of_ok junk h, hy, mk_ok_bind, hg.finishFound]
  rfl

omit junk in
/-- All names that are written with the same appends make the same Ruby string. -/
theorem frameNameRbstr_returns {tr : List Piece} (hproper : ∀ p ∈ tr, p.Proper) :
    ∃ ret, ∀ junk rt depth minLoc loc, (frameName rt depth minLoc loc).Yields tr () →
      (frameNameRbstr junk rt depth minLoc loc).result = .ok ret := by
  obtain ⟨text, -, -, hrun⟩ := growPieces_iff initialBufsize_pos hproper
  refine ⟨rbStrNew2 text, fun junk rt depth minLoc loc hyields => ?_⟩
  obtain ⟨tr', str, hy, -, hg⟩ := hrun junk
  rw [frameNameRbstr_of_ok junk hyields.result, hyields.trace, hy, mk_ok_bind, hg.finishValue]
  rfl

end

end Backtracie
