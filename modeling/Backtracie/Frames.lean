import Backtracie.Ruby

/-!
# Capturing frames

The records of `backtracie.h` and the functions of `backtracie_frames.c` that fill them in: a
`RawLocation` from a control frame of a thread, a `MinimalLocation` from a `RawLocation`.

* `frameCountForThread`, `captureFrameForThread`: the two functions a backtrace is collected with;
* `captureMinimalFrameForThread`: the same for the minimal records, which keep only what a name
  needs, in two tagged unions and a few bit fields;
* `lt_stackDepth_iff`: the bound of the count is the bound of the capture;
* `capture_of_lt`, `capture_of_not_lt`, `capture_ok`: what a capture does with a frame.
-/

namespace Backtracie

open CMem

/-- `raw_location`. -/
structure RawLocation where
  isRubyFrame : Bool
  selfIsRealSelf : Bool
  iseq : VALUE
  callableMethodEntry : VALUE
  selfOrSelfClass : VALUE
  pc : ℕ
  deriving DecidableEq

/-- A `raw_location` as `xcalloc` hands it out. -/
def RawLocation.zeroed : RawLocation :=
  { isRubyFrame := false, selfIsRealSelf := false, iseq := 0, callableMethodEntry := 0,
    selfOrSelfClass := 0, pc := 0 }

/-- `minimal_location_t`. The unions `method_name` and `method_qualifier` are one word each. -/
structure MinimalLocation where
  isRubyFrame : Bool
  methodQualifierContents : BitVec 2
  methodNameContents : BitVec 1
  hasIseqType : Bool
  iseqType : BitVec 5
  reservedBits : BitVec 6
  lineNumber : BitVec 32
  methodName : ℕ
  filename : VALUE
  methodQualifier : VALUE
  deriving DecidableEq

/-- A `minimal_location_t` of zero bytes. -/
def MinimalLocation.zeroed : MinimalLocation :=
  { isRubyFrame := false, methodQualifierContents := 0, methodNameContents := 0
    hasIseqType := false, iseqType := 0, reservedBits := 0, lineNumber := 0, methodName := 0
    filename := 0, methodQualifier := 0 }

/-- `BACKTRACIE_METHOD_QUALIFIER_CONTENTS_SELF`, and the other values of that field. -/
def methodQualifierContentsSelf : BitVec 2 := 0
def methodQualifierContentsSelfClass : BitVec 2 := 1
def methodQualifierContentsCmeClass : BitVec 2 := 2

/-- `BACKTRACIE_METHOD_NAME_CONTENTS_CME_ID`, and the other value of that field. -/
def methodNameContentsCmeId : BitVec 1 := 0
def methodNameContentsBaseLabel : BitVec 1 := 1

theorem cmeClass_ne_self : methodQualifierContentsCmeClass ≠ methodQualifierContentsSelf := by
  decide

theorem selfClass_ne_self : methodQualifierContentsSelfClass ≠ methodQualifierContentsSelf := by
  decide

theorem selfClass_ne_cmeClass :
    methodQualifierContentsSelfClass ≠ methodQualifierContentsCmeClass := by
  decide

theorem self_ne_cmeClass : methodQualifierContentsSelf ≠ methodQualifierContentsCmeClass := by
  decide

theorem baseLabel_ne_cmeId : methodNameContentsBaseLabel ≠ methodNameContentsCmeId := by decide

/-- `iseq_type_is_block_or_eval(type)`. -/
def iseqTypeIsBlockOrEval (type : ℕ) : Prop :=
  type = IseqType.eval.code ∨ type = IseqType.block.code

/-- `iseq_type_is_eval(type)`. -/
def iseqTypeIsEval (type : ℕ) : Prop := type = IseqType.eval.code

instance : DecidablePred iseqTypeIsBlockOrEval := fun _ => inferInstanceAs (Decidable (_ ∨ _))

instance : DecidablePred iseqTypeIsEval := fun _ => inferInstanceAs (Decidable (_ = _))

/-- `RUBY_VM_VALID_CONTROL_FRAME_P(cfp, ecfp)`. -/
def validControlFrameP (cfp ecfp : ℤ) : Prop := cfp < ecfp

instance (cfp ecfp : ℤ) : Decidable (validControlFrameP cfp ecfp) :=
  inferInstanceAs (Decidable (cfp < ecfp))

/-! ## Threads and control frames -/

section

variable (vm : VM)

/-- `backtracie_is_thread_alive`. -/
def isThreadAlive (thread : VALUE) : Prop :=
  ¬((vm.threadAt thread).toKill = true ∨ (vm.threadAt thread).status = .killed)

instance : DecidablePred (isThreadAlive vm) := fun _ => inferInstanceAs (Decidable (¬(_ ∨ _)))

/-- `backtracie_frame_count_for_execution_context`. Its result is a C `int`; here it is a natural
number, and the conversion `(int)` of the difference is left out. -/
def frameCountForExecutionContext (ec : ExecutionContext) : ℕ :=
  let lastCfp := ec.cfp
  -- without the two dummy frames at the bottom of the stack
  let startCfp := ec.endControlFrame - 2
  if ec.cfp = 0 then 0
  else if startCfp < lastCfp then 0
  else (startCfp - lastCfp + 1).toNat

/-- `backtracie_frame_count_for_thread`. -/
def frameCountForThread (thread : VALUE) : ℕ :=
  if ¬isThreadAlive vm thread then 0
  else frameCountForExecutionContext (vm.threadAt thread).ec

/-- `is_valid` of `backtracie_capture_frame_for_execution_context`. -/
def isValidFrame (frame : ControlFrame) : Except Fault Bool :=
  if frame.iseq ≠ 0 ∧ frame.pc = 0 then .ok false
  else if frame.rubyframeP then .ok true
  else if frame.vmFrameMethodEntry ≠ 0 then do
    let cme ← vm.derefMethodEntry frame.vmFrameMethodEntry
    pure (cme.defType = .cfunc)
  else .ok false

end

section

variable (rt : Runtime)

/-- `object_has_special_bt_handling(obj)`. -/
def objectHasSpecialBtHandling (obj : VALUE) : Prop :=
  obj = rt.mainObjectInstance ∨ obj = rt.rbMRubyVMFrozenCore

instance : DecidablePred (objectHasSpecialBtHandling rt) := fun _ =>
  inferInstanceAs (Decidable (_ ∨ _))

/-- The receiver itself is kept, and not its class. -/
def keepsSelf (self : VALUE) : Prop :=
  objectHasSpecialBtHandling rt self ∨ rt.classOrModuleOrIclass self

instance : DecidablePred (keepsSelf rt) := fun _ => inferInstanceAs (Decidable (_ ∨ _))

/-- The assignments to `*loc`: every field is written. -/
def locationOfFrame (frame : ControlFrame) : RawLocation :=
  { isRubyFrame := frame.rubyframeP
    iseq := frame.iseq
    callableMethodEntry := frame.vmFrameMethodEntry
    selfOrSelfClass := if keepsSelf rt frame.self then frame.self else rt.rbClassOf frame.self
    selfIsRealSelf := decide (keepsSelf rt frame.self)
    pc := frame.pc }

/-- `backtracie_capture_frame_for_execution_context`: what it returns, and what `*loc` is
afterwards. -/
def captureFrameForExecutionContext (ec : ExecutionContext) (frameIndex : ℕ) (loc : RawLocation) :
    Except Fault (Bool × RawLocation) :=
  let cfp := ec.cfp + frameIndex
  if ¬validControlFrameP cfp (ec.endControlFrame - 1) then
    .error (.abort "called capture_frame with an invalid index")
  else do
    let isValid ← isValidFrame rt.toVM (ec.frameAt cfp)
    if ¬isValid then pure (false, loc)
    else pure (true, locationOfFrame rt (ec.frameAt cfp))

/-- `backtracie_capture_frame_for_thread`. -/
def captureFrameForThread (thread : VALUE) (frameIndex : ℕ) (loc : RawLocation) :
    Except Fault (Bool × RawLocation) :=
  if ¬isThreadAlive rt.toVM thread then .ok (false, loc)
  else captureFrameForExecutionContext rt (rt.threadAt thread).ec frameIndex loc

/-! ## Minimal locations -/

/-- `calc_lineno(iseq, pc)`. -/
def calcLineno (iseq : VALUE) (pc : ℕ) : Except Fault (BitVec 32) :=
  if pc = 0 then .ok 0
  else do
    let body ← rt.derefIseq iseq
    let n := pc - body.iseqEncoded
    -- the pc points at the next instruction
    let pos := if n ≠ 0 then n - 1 else n
    pure (rt.rbIseqLineNo iseq pos)

/-- `backtracie_frame_line_number`. -/
def frameLineNumber (loc : RawLocation) : Except Fault (BitVec 32) := calcLineno rt loc.iseq loc.pc

/-- The assignments to `method_name_contents` and `method_name`. -/
def fillMethodName (rawLoc : RawLocation) (minLoc : MinimalLocation) :
    Except Fault MinimalLocation :=
  if rtest rawLoc.callableMethodEntry then do
    let cme ← rt.derefMethodEntry rawLoc.callableMethodEntry
    pure { minLoc with methodNameContents := methodNameContentsCmeId, methodName := cme.calledId }
  else if rtest rawLoc.iseq then do
    let iseq ← rt.derefIseq rawLoc.iseq
    pure { minLoc with
      methodNameContents := methodNameContentsBaseLabel, methodName := iseq.baseLabel }
  else pure { minLoc with methodNameContents := methodNameContentsBaseLabel, methodName := qnil }

/-- The assignments to `has_iseq_type`, `iseq_type` and `line_number`. -/
def fillIseqType (rawLoc : RawLocation) (minLoc : MinimalLocation) :
    Except Fault MinimalLocation :=
  if rtest rawLoc.iseq then do
    let iseq ← rt.derefIseq rawLoc.iseq
    let lineNumber ← calcLineno rt rawLoc.iseq rawLoc.pc
    pure { minLoc with
      hasIseqType := true, iseqType := BitVec.ofNat 5 iseq.type.code, lineNumber := lineNumber }
  else pure { minLoc with hasIseqType := false, lineNumber := 0 }

/-- The assignments to `method_qualifier_contents` and `method_qualifier`. -/
def fillMethodQualifier (rawLoc : RawLocation) (minLoc : MinimalLocation) :
    Except Fault MinimalLocation :=
  if rawLoc.selfIsRealSelf then
    pure { minLoc with
      methodQualifierContents := methodQualifierContentsSelf
      methodQualifier := rawLoc.selfOrSelfClass }
  else if rtest rawLoc.callableMethodEntry then do
    let cme ← rt.derefMethodEntry rawLoc.callableMethodEntry
    pure { minLoc with
      methodQualifierContents := methodQualifierContentsCmeClass
      methodQualifier := cme.definedClass }
  else
    pure { minLoc with
      methodQualifierContents := methodQualifierContentsSelfClass
      methodQualifier := rawLoc.selfOrSelfClass }

/-- `raw_location_to_minimal_location`: the fields it does not assign keep what `minLoc` held. -/
def rawLocationToMinimalLocation (rawLoc : RawLocation) (minLoc : MinimalLocation) :
    Except Fault MinimalLocation := do
  let minLoc := { minLoc with isRubyFrame := rawLoc.isRubyFrame }
  let minLoc ← fillMethodName rt rawLoc minLoc
  let minLoc ← fillIseqType rt rawLoc minLoc
  fillMethodQualifier rt rawLoc minLoc

/-- `backtracie_capture_minimal_frame_for_thread`; `rawLoc` is what its local variable `raw_loc`
holds before it is assigned. -/
def captureMinimalFrameForThread (rawLoc : RawLocation) (thread : VALUE) (frameIndex : ℕ)
    (loc : MinimalLocation) : Except Fault (Bool × MinimalLocation) := do
  let (ret, rawLoc) ← captureFrameForThread rt thread frameIndex rawLoc
  if ¬ret then pure (ret, loc)
  else do
    let loc ← rawLocationToMinimalLocation rt rawLoc loc
    pure (ret, loc)

end

/-! ## What a capture does -/

/-- The number of control frames from `cfp` up to the last one above the dummy frames. -/
def stackDepth (ec : ExecutionContext) : ℕ :=
  if ec.cfp = 0 then 0 else (ec.endControlFrame - 2 - ec.cfp + 1).toNat

section

variable {rt : Runtime} {ec : ExecutionContext} {i : ℕ} {loc loc' : RawLocation} {thread : VALUE}

theorem frameCount_eq_stackDepth : frameCountForExecutionContext ec = stackDepth ec := by
  unfold frameCountForExecutionContext stackDepth
  by_cases hcfp : ec.cfp = 0
  · rw [if_pos hcfp, if_pos hcfp]
  · simp only [if_neg hcfp]
    split <;> omega

/-- **The count and the capture agree**: the indices below the count are those that a capture
accepts. -/
theorem lt_stackDepth_iff :
    i < stackDepth ec ↔
      ec.cfp ≠ 0 ∧ validControlFrameP (ec.cfp + i) (ec.endControlFrame - 1) := by
  unfold stackDepth validControlFrameP
  split <;> omega

/-- A Ruby frame that has started is valid. -/
theorem isValidFrame_of_ruby {vm : VM} {frame : ControlFrame} (hruby : frame.rubyframeP = true)
    (hpc : frame.pc ≠ 0) : isValidFrame vm frame = .ok true := by
  rw [isValidFrame, if_neg fun h => hpc h.2, if_pos hruby]

/-- A capture within the bound of the count: the frame is kept if it is valid. -/
theorem capture_of_lt (h : ec.cfp + i < ec.endControlFrame - 1) :
    captureFrameForExecutionContext rt ec i loc =
      (isValidFrame rt.toVM (ec.frameAt (ec.cfp + i))).map fun isValid =>
        (isValid, if isValid then locationOfFrame rt (ec.frameAt (ec.cfp + i)) else loc) := by
  have hvalid : validControlFrameP (ec.cfp + i) (ec.endControlFrame - 1) := h
  simp only [captureFrameForExecutionContext, not_true, hvalid, if_false]
  rcases isValidFrame rt.toVM (ec.frameAt (ec.cfp + i)) with e | _ | _ <;> rfl

/-- A capture beyond that bound ends in the assertion. -/
theorem capture_of_not_lt (h : ¬ec.cfp + i < ec.endControlFrame - 1) :
    captureFrameForExecutionContext rt ec i loc =
      .error (.abort "called capture_frame with an invalid index") := by
  have hvalid : ¬validControlFrameP (ec.cfp + i) (ec.endControlFrame - 1) := h
  simp only [captureFrameForExecutionContext, not_false_eq_true, hvalid, if_true]

/-- **A capture that returns** `true` is one of a valid frame and fills the location from that
frame alone; one that returns `false` leaves the location as it was. -/
theorem capture_ok {isValid : Bool}
    (h : captureFrameForExecutionContext rt ec i loc = .ok (isValid, loc')) :
    ec.cfp + i < ec.endControlFrame - 1 ∧
      isValidFrame rt.toVM (ec.frameAt (ec.cfp + i)) = .ok isValid ∧
      loc' = if isValid then locationOfFrame rt (ec.frameAt (ec.cfp + i)) else loc := by
  by_cases hlt : ec.cfp + i < ec.endControlFrame - 1
  · rw [capture_of_lt hlt] at h
    cases hvalid : isValidFrame rt.toVM (ec.frameAt (ec.cfp + i)) with
    | error e =>
      rw [hvalid] at h
      cases h
    | ok b =>
      rw [hvalid] at h
      cases h
      exact ⟨hlt, rfl, rfl⟩
  · rw [capture_of_not_lt hlt] at h
    cases h

theorem captureForThread_of_alive (h : isThreadAlive rt.toVM thread) :
    captureFrameForThread rt thread i loc =
      captureFrameForExecutionContext rt (rt.threadAt thread).ec i loc := by
  rw [captureFrameForThread, if_neg (not_not.2 h)]

theorem captureForThread_true (h : captureFrameForThread rt thread i loc = .ok (true, loc')) :
    isThreadAlive rt.toVM thread ∧
      captureFrameForExecutionContext rt (rt.threadAt thread).ec i loc = .ok (true, loc') := by
  by_cases halive : isThreadAlive rt.toVM thread
  · rw [captureForThread_of_alive halive] at h
    exact ⟨halive, h⟩
  · rw [captureFrameForThread, if_pos halive] at h
    cases h

/-- A capture that returns `false` leaves the location as it was. -/
theorem captureForThread_false (h : captureFrameForThread rt thread i loc = .ok (false, loc')) :
    loc' = loc := by
  by_cases halive : isThreadAlive rt.toVM thread
  · rw [captureForThread_of_alive halive] at h
    exact (capture_ok h).2.2
  · rw [captureFrameForThread, if_pos halive] at h
    cases h
    rfl

end

end Backtracie
