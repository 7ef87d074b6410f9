import Backtracie.Naming

/-!
# What a minimal record keeps of a frame

`raw_location_to_minimal_location` writes two tagged unions, a bit field that is valid only under a
flag, and a line number, into a record with any contents. `Minimizes rt frame before minLoc` says
what the result keeps of the frame. `toMinimalLocation_minimizes` proves it for every frame whose
pointers are NULL or point at what they should, one lemma for each group of assignments.
-/

namespace Backtracie

open CMem

/-- The pointers of the frame are NULL, or point at an iseq and a method entry. The frame of a block
that is written in C (an ifunc) has an `iseq` that is not 0, which points at the ifunc, and a `pc`
that is 0. It is not valid (`isValidFrame`), so that its `iseq` is never followed, and it is proper
with any iseq at that address. -/
structure ControlFrame.Proper (vm : VM) (frame : ControlFrame) : Prop where
  iseq : frame.iseq = 0 ∨ rtest frame.iseq ∧ (vm.iseqAt frame.iseq).isSome
  methodEntry : frame.vmFrameMethodEntry = 0 ∨
    rtest frame.vmFrameMethodEntry ∧ (vm.methodEntryAt frame.vmFrameMethodEntry).isSome

/-- The iseq of a frame, if it has one. -/
def frameIseq (vm : VM) (frame : ControlFrame) : Option Iseq :=
  if frame.iseq = 0 then none else vm.iseqAt frame.iseq

/-- The callable method entry of a frame, if it has one. -/
def frameMethodEntry (vm : VM) (frame : ControlFrame) : Option MethodEntry :=
  if frame.vmFrameMethodEntry = 0 then none else vm.methodEntryAt frame.vmFrameMethodEntry

/-- The base label of an iseq, `Qnil` without one. -/
def baseLabelOf : Option Iseq → VALUE
  | some iseq => iseq.baseLabel
  | none => qnil

/-- The code is that of a block or an eval. -/
def isBlockOrEval : Option Iseq → Prop
  | some iseq => iseqTypeIsBlockOrEval iseq.type.code
  | none => False

instance : DecidablePred isBlockOrEval
  | some iseq => inferInstanceAs (Decidable (iseqTypeIsBlockOrEval iseq.type.code))
  | none => inferInstanceAs (Decidable False)

/-- The fields for the method name hold the id of the method entry, or else the base label. -/
def KeepsMethodName (cme : Option MethodEntry) (iseq : Option Iseq) (contents : BitVec 1)
    (methodName : ℕ) : Prop :=
  match cme with
  | some cme => contents = methodNameContentsCmeId ∧ methodName = cme.calledId
  | none => contents = methodNameContentsBaseLabel ∧ methodName = baseLabelOf iseq

/-- The fields for the qualifier hold self where it was kept, or else the class the method entry
is defined in, or else the class of self. -/
def KeepsMethodQualifier (rt : Runtime) (self : VALUE) (cme : Option MethodEntry)
    (contents : BitVec 2) (methodQualifier : VALUE) : Prop :=
  if keepsSelf rt self then contents = methodQualifierContentsSelf ∧ methodQualifier = self
  else match cme with
  | some cme => contents = methodQualifierContentsCmeClass ∧ methodQualifier = cme.definedClass
  | none => contents = methodQualifierContentsSelfClass ∧ methodQualifier = rt.rbClassOf self

/-- What `raw_location_to_minimal_location` keeps of a frame, in a record that held `before`. -/
structure Minimizes (rt : Runtime) (frame : ControlFrame) (before minLoc : MinimalLocation) :
    Prop where
  methodName : KeepsMethodName (frameMethodEntry rt.toVM frame) (frameIseq rt.toVM frame)
    minLoc.methodNameContents minLoc.methodName
  inBlock : minLoc.inBlock ↔ isBlockOrEval (frameIseq rt.toVM frame)
  lineNumber : frame.iseq ≠ 0 → calcLineno rt frame.iseq frame.pc = .ok minLoc.lineNumber
  methodQualifier : KeepsMethodQualifier rt frame.self (frameMethodEntry rt.toVM frame)
    minLoc.methodQualifierContents minLoc.methodQualifier
  filename : minLoc.filename = before.filename

variable {rt : Runtime} {frame : ControlFrame}

theorem not_rtest_of_zero {v : VALUE} (h : v = 0) : ¬rtest v := fun htest => htest.1 h

/-- The bit field is wide enough for every type of iseq. -/
theorem iseqType_toNat (type : IseqType) : (BitVec.ofNat 5 type.code).toNat = type.code := by
  cases type <;> rfl

theorem frameIseq_cases (h : frame.Proper rt.toVM) :
    (¬rtest frame.iseq ∧ frame.iseq = 0 ∧ frameIseq rt.toVM frame = none) ∨
      ∃ iseq, rtest frame.iseq ∧ frame.iseq ≠ 0 ∧ rt.iseqAt frame.iseq = some iseq ∧
        frameIseq rt.toVM frame = some iseq := by
  rcases h.iseq with h0 | ⟨htest, hsome⟩
  · exact .inl ⟨not_rtest_of_zero h0, h0, if_pos h0⟩
  · obtain ⟨iseq, hiseq⟩ := Option.isSome_iff_exists.1 hsome
    have hne : frame.iseq ≠ 0 := htest.1
    exact .inr ⟨iseq, htest, hne, hiseq, by rw [frameIseq, if_neg hne, hiseq]⟩

theorem frameMethodEntry_cases (h : frame.Proper rt.toVM) :
    (¬rtest frame.vmFrameMethodEntry ∧ frame.vmFrameMethodEntry = 0 ∧
      frameMethodEntry rt.toVM frame = none) ∨
      ∃ cme, rtest frame.vmFrameMethodEntry ∧ frame.vmFrameMethodEntry ≠ 0 ∧
        rt.methodEntryAt frame.vmFrameMethodEntry = some cme ∧
        frameMethodEntry rt.toVM frame = some cme := by
  rcases h.methodEntry with h0 | ⟨htest, hsome⟩
  · exact .inl ⟨not_rtest_of_zero h0, h0, if_pos h0⟩
  · obtain ⟨cme, hcme⟩ := Option.isSome_iff_exists.1 hsome
    have hne : frame.vmFrameMethodEntry ≠ 0 := htest.1
    exact .inr ⟨cme, htest, hne, hcme, by rw [frameMethodEntry, if_neg hne, hcme]⟩

theorem calcLineno_ok {v : VALUE} {iseq : Iseq} (h : rt.iseqAt v = some iseq) (pc : ℕ) :
    ∃ lineno, calcLineno rt v pc = .ok lineno := by
  unfold calcLineno
  split
  · exact ⟨_, rfl⟩
  · rw [VM.derefIseq_of_some h]
    exact ⟨_, rfl⟩

/-! ## The groups of assignments -/

theorem fillMethodName_ok (h : frame.Proper rt.toVM) (minLoc : MinimalLocation) :
    ∃ contents methodName, fillMethodName rt (locationOfFrame rt frame) minLoc =
        .ok { minLoc with methodNameContents := contents, methodName := methodName } ∧
      KeepsMethodName (frameMethodEntry rt.toVM frame) (frameIseq rt.toVM frame) contents
        methodName := by
  unfold fillMethodName
  simp only [locationOfFrame]
  rcases frameMethodEntry_cases h with ⟨hntest, -, hnone⟩ | ⟨cme, htest, -, hcme, hsome⟩
  · simp only [hnone, hntest, if_false]
    rcases frameIseq_cases h with ⟨hintest, hi0, hinone⟩ | ⟨iseq, hitest, -, hiseq, hisome⟩
    · simp only [hinone, hintest, if_false]
      exact ⟨_, _, rfl, rfl, rfl⟩
    · simp only [hisome, hitest, if_true, VM.derefIseq_of_some hiseq]
      exact ⟨_, _, rfl, rfl, rfl⟩
  · simp only [hsome, htest, if_true, VM.derefMethodEntry_of_some hcme]
    exact ⟨_, _, rfl, rfl, rfl⟩

theorem fillIseqType_ok (h : frame.Proper rt.toVM) (minLoc : MinimalLocation) :
    ∃ hasIseqType iseqType lineNumber, fillIseqType rt (locationOfFrame rt frame) minLoc =
        .ok { minLoc with
          hasIseqType := hasIseqType, iseqType := iseqType, lineNumber := lineNumber } ∧
      (hasIseqType = true ∧ iseqTypeIsBlockOrEval iseqType.toNat ↔
        isBlockOrEval (frameIseq rt.toVM frame)) ∧
      (frame.iseq ≠ 0 → calcLineno rt frame.iseq frame.pc = .ok lineNumber) := by
  unfold fillIseqType
  simp only [locationOfFrame]
  rcases frameIseq_cases h with ⟨hintest, hi0, hinone⟩ | ⟨iseq, hitest, -, hiseq, hisome⟩
  · simp only [hinone, hintest, if_false]
    exact ⟨_, _, _, rfl, by simp [isBlockOrEval], fun hne => absurd hi0 hne⟩
  · obtain ⟨lineno, hlineno⟩ := calcLineno_ok hiseq frame.pc
    simp only [hisome, hitest, if_true, VM.derefIseq_of_some hiseq, hlineno]
    refine ⟨_, _, _, rfl, ?_, fun _ => rfl⟩
    rw [iseqType_toNat, isBlockOrEval]
    exact and_iff_right rfl

theorem fillMethodQualifier_ok (h : frame.Proper rt.toVM) (minLoc : MinimalLocation) :
    ∃ contents methodQualifier, fillMethodQualifier rt (locationOfFrame rt frame) minLoc =
        .ok { minLoc with
          methodQualifierContents := contents, methodQualifier := methodQualifier } ∧
      KeepsMethodQualifier rt frame.self (frameMethodEntry rt.toVM frame) contents
        methodQualifier := by
  unfold fillMethodQualifier KeepsMethodQualifier
  simp only [locationOfFrame]
  by_cases hself : keepsSelf rt frame.self
  · simp only [hself, decide_true, if_true]
    exact ⟨_, _, rfl, rfl, rfl⟩
  · simp only [hself, decide_false, if_false, Bool.false_eq_true]
    rcases frameMethodEntry_cases h with ⟨hntest, -, hnone⟩ | ⟨cme, htest, -, hcme, hsome⟩
    · simp only [hnone, hntest, if_false]
      exact ⟨_, _, rfl, rfl, rfl⟩
    · simp only [hsome, htest, if_true, VM.derefMethodEntry_of_some hcme]
      exact ⟨_, _, rfl, rfl, rfl⟩

/-- **The minimal record of a captured frame**: it can be made, and it keeps what a name needs,
whatever the record held before. -/
theorem toMinimalLocation_minimizes (h : frame.Proper rt.toVM) (before : MinimalLocation) :
    ∃ minLoc, rawLocationToMinimalLocation rt (locationOfFrame rt frame) before = .ok minLoc ∧
      Minimizes rt frame before minLoc := by
  obtain ⟨nameContents, methodName, hname, hkeepsName⟩ := fillMethodName_ok h
    { before with isRubyFrame := frame.rubyframeP }
  obtain ⟨hasIseqType, iseqType, lineNumber, hiseq, hblock, hline⟩ := fillIseqType_ok h
    { before with
      isRubyFrame := frame.rubyframeP, methodNameContents := nameContents
      methodName := methodName }
  obtain ⟨contents, methodQualifier, hqualifier, hkeepsQualifier⟩ := fillMethodQualifier_ok h
    { before with
      isRubyFrame := frame.rubyframeP, methodNameContents := nameContents, methodName := methodName
      hasIseqType := hasIseqType, iseqType := iseqType, lineNumber := lineNumber }
  refine ⟨{ before with
      isRubyFrame := frame.rubyframeP, methodNameContents := nameContents, methodName := methodName
      hasIseqType := hasIseqType, iseqType := iseqType, lineNumber := lineNumber
      methodQualifierContents := contents, methodQualifier := methodQualifier },
    ?_, hkeepsName, hblock, hline, hkeepsQualifier, rfl⟩
  calc rawLocationToMinimalLocation rt (locationOfFrame rt frame) before
      = (fillMethodName rt (locationOfFrame rt frame)
          { before with isRubyFrame := frame.rubyframeP } >>= fun minLoc =>
        fillIseqType rt (locationOfFrame rt frame) minLoc >>= fun minLoc =>
        fillMethodQualifier rt (locationOfFrame rt frame) minLoc) := rfl
    _ = (fillIseqType rt (locationOfFrame rt frame) _ >>= fun minLoc =>
        fillMethodQualifier rt (locationOfFrame rt frame) minLoc) := by rw [hname]; rfl
    _ = fillMethodQualifier rt (locationOfFrame rt frame) _ := by rw [hiseq]; rfl
    _ = _ := hqualifier

end Backtracie
