import Backtracie.Relocation

/-!
# Captures and queries after a move

With the VM and the global of the extension moved, a capture yields the references moved, and a
query of these writes the same text.

* `captureFrameForThread_relocate`: a frame is captured with its references moved;
* `query_writes_relocate`: what a query of a captured frame writes does not change.
-/

namespace Backtracie

open CMem Traced

@[simp] theorem Runtime.relocate_toVM (σ : Relocation) (rt : Runtime) :
    (rt.relocate σ).toVM = rt.toVM.relocate σ := rfl

variable (σ : Relocation) (rt : Runtime) (vm : VM)

/-! ## Captures -/

theorem isThreadAlive_relocate (thread : VALUE) :
    isThreadAlive (vm.relocate σ) (σ thread) ↔ isThreadAlive vm thread := by
  unfold isThreadAlive
  rw [relocate_threadAt]
  rfl

theorem isValidFrame_relocate (frame : ControlFrame) :
    isValidFrame (vm.relocate σ) (frame.relocate σ) = isValidFrame vm frame := by
  unfold isValidFrame
  simp only [ControlFrame.relocate, ne_eq, Relocation.apply_eq_zero, relocate_derefMethodEntry]
  congr 3
  cases vm.derefMethodEntry frame.vmFrameMethodEntry <;> rfl

theorem keepsSelf_relocate (self : VALUE) :
    keepsSelf (rt.relocate σ) (σ self) ↔ keepsSelf rt self := by
  unfold keepsSelf objectHasSpecialBtHandling
  rw [Runtime.relocate_toVM, relocate_classOrModuleOrIclass]
  refine or_congr_left (or_congr ?_ ?_)
  · exact σ.apply_inj
  · exact σ.apply_inj

theorem locationOfFrame_relocate (frame : ControlFrame) :
    locationOfFrame (rt.relocate σ) (frame.relocate σ) =
      frameCompact σ (locationOfFrame rt frame) := by
  unfold locationOfFrame frameCompact
  simp only [ControlFrame.relocate, keepsSelf_relocate, Runtime.relocate_toVM, relocate_rbClassOf,
    apply_ite σ.toFun]

theorem captureFrameForExecutionContext_relocate (ec : ExecutionContext) (i : ℕ)
    (slot slot' : RawLocation) :
    captureFrameForExecutionContext (rt.relocate σ) (ec.relocate σ) i slot' =
      (captureFrameForExecutionContext rt ec i slot).map fun capture =>
        (capture.1, if capture.1 then frameCompact σ capture.2 else slot') := by
  by_cases hlt : ec.cfp + i < ec.endControlFrame - 1
  · have hlt' : (ec.relocate σ).cfp + i < (ec.relocate σ).endControlFrame - 1 := hlt
    rw [capture_of_lt hlt, capture_of_lt hlt']
    show (isValidFrame (rt.toVM.relocate σ) ((ec.frameAt (ec.cfp + i)).relocate σ)).map _ = _
    rw [isValidFrame_relocate]
    cases isValidFrame rt.toVM (ec.frameAt (ec.cfp + i)) with
    | error e => rfl
    | ok isValid =>
      cases isValid with
      | true => exact congrArg (fun loc => Except.ok (true, loc)) (locationOfFrame_relocate σ rt _)
      | false => rfl
  · have hlt' : ¬(ec.relocate σ).cfp + i < (ec.relocate σ).endControlFrame - 1 := hlt
    rw [capture_of_not_lt hlt, capture_of_not_lt hlt']
    rfl

/-- **A capture after a move** yields the frame with its references moved. -/
theorem captureFrameForThread_relocate (thread : VALUE) (i : ℕ) (slot slot' : RawLocation) :
    captureFrameForThread (rt.relocate σ) (σ thread) i slot' =
      (captureFrameForThread rt thread i slot).map fun capture =>
        (capture.1, if capture.1 then frameCompact σ capture.2 else slot') := by
  by_cases halive : isThreadAlive rt.toVM thread
  · have halive' : isThreadAlive (rt.relocate σ).toVM (σ thread) :=
      (isThreadAlive_relocate σ rt.toVM thread).2 halive
    rw [captureForThread_of_alive halive, captureForThread_of_alive halive',
      Runtime.relocate_toVM, relocate_threadAt]
    exact captureFrameForExecutionContext_relocate σ rt _ i slot slot'
  · have hdead' : ¬isThreadAlive (rt.relocate σ).toVM (σ thread) := fun h =>
      halive ((isThreadAlive_relocate σ rt.toVM thread).1 h)
    rw [captureFrameForThread, captureFrameForThread, if_pos halive, if_pos hdead']
    rfl

/-! ## Classes and modules -/

section

@[simp] theorem appendValue_relocate (v : VALUE) :
    appendValue (vm.relocate σ) (σ v) = appendValue vm v := by
  unfold appendValue
  rw [relocate_stringContent]

theorem modToSAnonClass_relocate (rounds : ℕ) (klass : VALUE) :
    modToSAnonClass (vm.relocate σ) rounds (σ klass) = σ <$> modToSAnonClass vm rounds klass := by
  induction rounds generalizing klass with
  | zero => rfl
  | succ rounds ih =>
    unfold modToSAnonClass
    rw [relocate_rbType, relocate_rbClassOf, ih]
    split <;> rfl

theorem modToSAnonName_relocate (rounds : ℕ) (klass : VALUE) :
    modToSAnonName (vm.relocate σ) rounds (σ klass) = σ <$> modToSAnonName vm rounds klass := by
  induction rounds generalizing klass with
  | zero => rfl
  | succ rounds ih =>
    unfold modToSAnonName
    simp only [relocate_rbClassSuperclass, relocate_rbModName, Relocation.rtest_apply, ih]
    split
    · rfl
    · split <;> rfl

theorem modToSAnon_relocate (rounds : ℕ) (klass : VALUE) :
    modToSAnon (vm.relocate σ) rounds (σ klass) = modToSAnon vm rounds klass := by
  unfold modToSAnon
  simp only [modToSAnonClass_relocate, bind_map_left, modToSAnonName_relocate,
    appendValue_relocate]

theorem singletonOf_relocate (klass : VALUE) :
    singletonOf (vm.relocate σ) (σ klass) = σ (singletonOf vm klass) := by
  have hmodule : (vm.relocate σ).rbCModule = σ vm.rbCModule := rfl
  have hclass : (vm.relocate σ).rbCClass = σ vm.rbCClass := rfl
  unfold singletonOf
  simp only [relocate_rbClassReal, relocate_attached, hmodule, hclass, Relocation.apply_inj,
    apply_ite σ.toFun]

@[simp] theorem modToS_relocate (depth : ℕ) (klass : VALUE) :
    modToS (vm.relocate σ) depth (σ klass) = modToS vm depth klass := by
  induction depth generalizing klass with
  | zero => rfl
  | succ depth ih =>
    unfold modToS modToSSingleton
    simp only [relocate_flSingleton, singletonOf_relocate, relocate_rbModName,
      Relocation.rtest_apply, relocate_rbType, relocate_rbasicKlass, ih, modToSAnon_relocate,
      appendValue_relocate]

@[simp] theorem modToSRefinement_relocate (depth : ℕ) (refinement : VALUE) :
    modToSRefinement (vm.relocate σ) depth (σ refinement) =
      modToSRefinement vm depth refinement := by
  unfold modToSRefinement
  simp only [relocate_refinedClass, relocate_definedAt, modToS_relocate]

@[simp] theorem isRefinement_relocate (v : VALUE) :
    isRefinement (vm.relocate σ) (σ v) ↔ isRefinement vm v := by
  unfold isRefinement
  rw [Relocation.rtest_apply, relocate_rmoduleIsRefinement]

end

/-! ## Minimal records -/

section

variable (loc : RawLocation) (minLoc : MinimalLocation) (depth : ℕ)

/-- A minimal record with the base label moved, if it has one. -/
def MinimalLocation.movedName (minLoc : MinimalLocation) : MinimalLocation :=
  { minLoc with
    methodName :=
      if minLoc.methodNameContents = methodNameContentsCmeId then minLoc.methodName
      else σ minLoc.methodName }

/-- A minimal record with the references moved that a name is written from. -/
def MinimalLocation.moved (minLoc : MinimalLocation) : MinimalLocation :=
  { minLoc.movedName σ with methodQualifier := σ minLoc.methodQualifier }

theorem calcLineno_relocate (iseq : VALUE) (pc : ℕ) :
    calcLineno (rt.relocate σ) (σ iseq) pc = calcLineno rt iseq pc := by
  unfold calcLineno
  rw [Runtime.relocate_toVM, relocate_derefIseq]
  split
  · rfl
  · cases rt.toVM.derefIseq iseq with
    | error e => rfl
    | ok body => exact congrArg Except.ok (relocate_rbIseqLineNo σ rt.toVM iseq _)

theorem fillMethodName_relocate :
    fillMethodName (rt.relocate σ) (frameCompact σ loc) minLoc =
      (fillMethodName rt loc minLoc).map (MinimalLocation.movedName σ) := by
  unfold fillMethodName
  simp only [frameCompact, Relocation.rtest_apply, Runtime.relocate_toVM, relocate_derefMethodEntry,
    relocate_derefIseq]
  split
  · cases rt.toVM.derefMethodEntry loc.callableMethodEntry <;> rfl
  · split
    · cases rt.toVM.derefIseq loc.iseq <;> rfl
    · exact congrArg (fun v => Except.ok { minLoc with
        methodNameContents := methodNameContentsBaseLabel, methodName := v }) σ.map_qnil.symm

theorem fillIseqType_relocate :
    fillIseqType (rt.relocate σ) (frameCompact σ loc) (minLoc.movedName σ) =
      (fillIseqType rt loc minLoc).map (MinimalLocation.movedName σ) := by
  unfold fillIseqType
  simp only [frameCompact, Relocation.rtest_apply, Runtime.relocate_toVM, relocate_derefIseq,
    calcLineno_relocate]
  split
  · cases rt.toVM.derefIseq loc.iseq with
    | error e => rfl
    | ok iseq => cases calcLineno rt loc.iseq loc.pc <;> rfl
  · rfl

theorem fillMethodQualifier_relocate :
    fillMethodQualifier (rt.relocate σ) (frameCompact σ loc) (minLoc.movedName σ) =
      (fillMethodQualifier rt loc minLoc).map (MinimalLocation.moved σ) := by
  unfold fillMethodQualifier
  simp only [frameCompact, Relocation.rtest_apply, Runtime.relocate_toVM, relocate_derefMethodEntry]
  split
  · rfl
  · split
    · cases rt.toVM.derefMethodEntry loc.callableMethodEntry <;> rfl
    · rfl

/-- The minimal record after a move holds the references moved. -/
theorem toMinimalLocation_relocate :
    rawLocationToMinimalLocation (rt.relocate σ) (frameCompact σ loc) minLoc =
      (rawLocationToMinimalLocation rt loc minLoc).map (MinimalLocation.moved σ) := by
  show (fillMethodName (rt.relocate σ) (frameCompact σ loc) _ >>= fun minLoc =>
    fillIseqType (rt.relocate σ) (frameCompact σ loc) minLoc >>=
      fillMethodQualifier (rt.relocate σ) (frameCompact σ loc)) = _
  rw [fillMethodName_relocate]
  refine except_map_bind fun minLoc => ?_
  rw [fillIseqType_relocate]
  exact except_map_bind fun minLoc => fillMethodQualifier_relocate σ rt loc minLoc

/-! ## What queries write -/

theorem methodQualifier_relocate :
    minimalLocationMethodQualifier (rt.relocate σ) depth (minLoc.moved σ) =
      minimalLocationMethodQualifier rt depth minLoc := by
  have hmain : (rt.relocate σ).mainObjectInstance = σ rt.mainObjectInstance := rfl
  have hfrozen : (rt.toVM.relocate σ).rbMRubyVMFrozenCore = σ rt.rbMRubyVMFrozenCore := rfl
  unfold minimalLocationMethodQualifier methodTargetQualifier
  simp only [MinimalLocation.moved, MinimalLocation.movedName, Runtime.relocate_toVM, hmain,
    hfrozen, Relocation.apply_inj, relocate_rbClassOf, isRefinement_relocate,
    modToSRefinement_relocate, relocate_classOrModuleOrIclass, modToS_relocate]

theorem selfHasType_relocate (type : RubyType) :
    selfHasType (rt.relocate σ) (minLoc.moved σ) type ↔ selfHasType rt minLoc type := by
  unfold selfHasType
  simp only [MinimalLocation.moved, MinimalLocation.movedName, Runtime.relocate_toVM,
    relocate_rbType]

theorem methodName_relocate :
    minimalLocationMethodName (rt.relocate σ) (minLoc.moved σ) =
      minimalLocationMethodName rt minLoc := by
  have hblock : (minLoc.moved σ).inBlock ↔ minLoc.inBlock := Iff.rfl
  unfold minimalLocationMethodName
  simp only [selfHasType_relocate, hblock, Runtime.relocate_toVM]
  by_cases hid : minLoc.methodNameContents = methodNameContentsCmeId
  · simp only [MinimalLocation.moved, MinimalLocation.movedName, hid, if_true, relocate_rbId2str,
      appendValue_relocate]
  · simp only [MinimalLocation.moved, MinimalLocation.movedName, hid, if_false,
      appendValue_relocate]

theorem frameName_relocate :
    frameName (rt.relocate σ) depth minLoc (frameCompact σ loc) =
      frameName rt depth minLoc loc := by
  unfold frameName minimalLocationName
  rw [toMinimalLocation_relocate]
  cases rawLocationToMinimalLocation rt loc minLoc with
  | error e => rfl
  | ok minLoc =>
    show (minimalLocationMethodQualifier (rt.relocate σ) depth (minLoc.moved σ) >>= fun _ =>
      minimalLocationMethodName (rt.relocate σ) (minLoc.moved σ)) = _
    rw [methodQualifier_relocate, methodName_relocate]
    rfl

theorem pathOfPathobj_relocate (pathobj : VALUE) (absolute : Bool) :
    pathOfPathobj (vm.relocate σ) (σ pathobj) absolute =
      (pathOfPathobj vm pathobj absolute).map σ := by
  unfold pathOfPathobj
  rw [relocate_rbType, relocate_rarrayAref]
  split
  · rfl
  · split <;> rfl

theorem frameFilename_relocate (absolute : Bool) :
    frameFilename (vm.relocate σ) (frameCompact σ loc) absolute =
      frameFilename vm loc absolute := by
  unfold frameFilename iseqPath
  simp only [frameCompact, Relocation.apply_eq_zero, relocate_derefIseq]
  split
  · rfl
  · cases vm.derefIseq loc.iseq with
    | error e => rfl
    | ok body =>
      show (lift (pathOfPathobj (vm.relocate σ) (σ body.pathobj) absolute) >>= _) = _
      rw [pathOfPathobj_relocate]
      show _ = (lift (pathOfPathobj vm body.pathobj absolute) >>= _)
      cases pathOfPathobj vm body.pathobj absolute with
      | error e => rfl
      | ok path =>
        simp only [Except.map, lift_ok, pure_bind, Relocation.rtest_apply, appendValue_relocate]

theorem frameLabel_relocate (base : Bool) :
    frameLabel (vm.relocate σ) (frameCompact σ loc) base = frameLabel vm loc base := by
  unfold frameLabel
  simp only [frameCompact, Relocation.rtest_apply, relocate_derefIseq, relocate_derefMethodEntry]
  split
  · split
    · rfl
    · cases vm.derefIseq loc.iseq with
      | error e => rfl
      | ok iseq =>
        cases base with
        | true => simp only [Except.map, lift_ok, pure_bind, Iseq.relocate, if_true,
            appendValue_relocate]
        | false => simp only [Except.map, lift_ok, pure_bind, Iseq.relocate, if_false,
            Bool.false_eq_true, appendValue_relocate]
  · split
    · rfl
    · cases vm.derefMethodEntry loc.callableMethodEntry with
      | error e => rfl
      | ok cme => simp only [Except.map, lift_ok, pure_bind, MethodEntry.relocate,
          relocate_rbId2str, appendValue_relocate]

/-- A query of the public interface about a captured frame. -/
inductive Query
  | name
  | filename (absolute : Bool)
  | label (base : Bool)
  deriving DecidableEq

/-- The function that writes the answer to a buffer. -/
def Query.function (minLoc : MinimalLocation) (loc : RawLocation) : Query → CstrFunction
  | .name => .frameName minLoc loc
  | .filename absolute => .frameFilename loc absolute
  | .label base => .frameLabel loc base

/-- **What a query writes does not change** when the objects are moved. -/
theorem query_writes_relocate (query : Query) :
    (query.function minLoc (frameCompact σ loc)).writes (rt.relocate σ) depth =
      (query.function minLoc loc).writes rt depth := by
  cases query with
  | name => exact frameName_relocate σ rt loc minLoc depth
  | filename absolute =>
    exact congrArg discard (frameFilename_relocate σ rt.toVM loc absolute)
  | label base => exact congrArg discard (frameLabel_relocate σ rt.toVM loc base)

end

end Backtracie
