import Backtracie.Lawful

/-!
# The name of a frame, from the frame itself

A name is written from a `minimal_location_t`, which is made from a `raw_location`, which is made
from a control frame; self, the method entry and the iseq are dropped on the way. `referenceName`
is what the name should be, from the full frame. `name_survives_capture`: it is what both routes
write, whatever the records held before they were filled in.
-/

namespace Backtracie

open CMem Traced

section

variable (rt : Runtime) (depth : ℕ) (self : VALUE) (cme : Option MethodEntry) (iseq : Option Iseq)

/-- The receiver of the method, or the class it is defined in. -/
def referenceQualifier : Emit Unit :=
  if self = rt.mainObjectInstance then append "Object$<main>#"
  else if self = rt.rbMRubyVMFrozenCore then append "RubyVM::FrozenCore#"
  else if rt.classOrModuleOrIclass self then do
    modToS rt.toVM depth self
    append "."
  else match cme with
  | some cme =>
    if isRefinement rt.toVM (rt.rbClassOf cme.definedClass) then do
      modToSRefinement rt.toVM depth (rt.rbClassOf cme.definedClass)
      append "#"
    else do
      modToS rt.toVM depth cme.definedClass
      append "#"
  | none => do
    modToS rt.toVM depth (rt.rbClassOf self)
    append "#"

/-- What there is to say about code without a method entry: that it is the body of a class, of a
module, of a block; or else its base label. -/
def referenceNoMethod : Emit Unit := do
  appendIf (rt.rbType self = .tClass) "{class exec}"
  appendIf (rt.rbType self = .tModule) "{module exec}"
  appendIf (isBlockOrEval iseq) "{block}"
  if ¬(rt.rbType self = .tClass ∨ rt.rbType self = .tModule ∨ isBlockOrEval iseq) then
    appendValue rt.toVM (baseLabelOf iseq)

/-- The name of the method that was called, or what there is in its place. -/
def referenceMethodName : Emit Unit :=
  match cme with
  | some cme => do
    appendValue rt.toVM (rt.rbId2str cme.calledId)
    appendIf (isBlockOrEval iseq) "{block}"
  | none => referenceNoMethod rt self iseq

/-- The name of a frame with the given self, method entry and iseq. -/
def referenceName : Emit Unit := do
  referenceQualifier rt depth self cme
  referenceMethodName rt self cme iseq

end

/-- The reference name of a control frame. -/
def frameReferenceName (rt : Runtime) (depth : ℕ) (frame : ControlFrame) : Emit Unit :=
  referenceName rt depth frame.self (frameMethodEntry rt.toVM frame) (frameIseq rt.toVM frame)

variable {rt : Runtime} {depth : ℕ} {frame : ControlFrame} {before minLoc : MinimalLocation}

/-! ## The qualifier -/

/-- With self kept, the qualifier is that of self. -/
theorem qualifier_of_self (hself : keepsSelf rt frame.self)
    (hcontents : minLoc.methodQualifierContents = methodQualifierContentsSelf)
    (hword : minLoc.methodQualifier = frame.self) (cme : Option MethodEntry) :
    minimalLocationMethodQualifier rt depth minLoc =
      referenceQualifier rt depth frame.self cme := by
  unfold minimalLocationMethodQualifier referenceQualifier
  simp only [hcontents, hword, true_and, self_ne_cmeClass, false_and, if_false]
  split
  · rfl
  · next hmain =>
    split
    · rfl
    · next hfrozen =>
      have hclass : rt.classOrModuleOrIclass frame.self := by
        rcases hself with (h | h) | h
        · exact absurd h hmain
        · exact absurd h hfrozen
        · exact h
      simp only [hclass, if_true]

/-- With the class of the method entry kept, the qualifier is that class, or the refinement it
belongs to. -/
theorem qualifier_of_cme (hself : ¬keepsSelf rt frame.self) {cme : MethodEntry}
    (hcontents : minLoc.methodQualifierContents = methodQualifierContentsCmeClass)
    (hword : minLoc.methodQualifier = cme.definedClass) :
    minimalLocationMethodQualifier rt depth minLoc =
      referenceQualifier rt depth frame.self (some cme) := by
  simp only [keepsSelf, objectHasSpecialBtHandling, not_or] at hself
  obtain ⟨⟨hmain, hfrozen⟩, hclass⟩ := hself
  unfold minimalLocationMethodQualifier referenceQualifier methodTargetQualifier
  simp only [hcontents, hword, cmeClass_ne_self, false_and, if_false, true_and, hmain, hfrozen,
    hclass, or_true, if_true]

/-- With the class of self kept, the qualifier is that class. -/
theorem qualifier_of_selfClass (hself : ¬keepsSelf rt frame.self)
    (hcontents : minLoc.methodQualifierContents = methodQualifierContentsSelfClass)
    (hword : minLoc.methodQualifier = rt.rbClassOf frame.self) :
    minimalLocationMethodQualifier rt depth minLoc =
      referenceQualifier rt depth frame.self none := by
  simp only [keepsSelf, objectHasSpecialBtHandling, not_or] at hself
  obtain ⟨⟨hmain, hfrozen⟩, hclass⟩ := hself
  unfold minimalLocationMethodQualifier referenceQualifier methodTargetQualifier
  simp only [hcontents, hword, selfClass_ne_self, selfClass_ne_cmeClass, false_and, if_false,
    hmain, hfrozen, hclass, true_or, if_true]

theorem Minimizes.qualifier_eq (h : Minimizes rt frame before minLoc) :
    minimalLocationMethodQualifier rt depth minLoc =
      referenceQualifier rt depth frame.self (frameMethodEntry rt.toVM frame) := by
  have hkept := h.methodQualifier
  unfold KeepsMethodQualifier at hkept
  by_cases hself : keepsSelf rt frame.self
  · rw [if_pos hself] at hkept
    exact qualifier_of_self hself hkept.1 hkept.2 _
  · rw [if_neg hself] at hkept
    rcases hcme : frameMethodEntry rt.toVM frame with _ | cme
    · rw [hcme] at hkept
      exact qualifier_of_selfClass hself hkept.1 hkept.2
    · rw [hcme] at hkept
      exact qualifier_of_cme hself hkept.1 hkept.2

/-! ## The method -/

/-- Where self was dropped, it is not a class or a module; so what the record says of the type of
self is what the frame says. -/
theorem Minimizes.selfHasType_iff (h : Minimizes rt frame before minLoc) {type : RubyType}
    (htype : type = .tClass ∨ type = .tModule) :
    selfHasType rt minLoc type ↔ rt.rbType frame.self = type := by
  have hkept := h.methodQualifier
  unfold KeepsMethodQualifier at hkept
  by_cases hself : keepsSelf rt frame.self
  · rw [if_pos hself] at hkept
    rw [selfHasType, hkept.1, hkept.2]
    exact and_iff_right rfl
  · have hcontents : minLoc.methodQualifierContents ≠ methodQualifierContentsSelf := by
      rw [if_neg hself] at hkept
      rcases hcme : frameMethodEntry rt.toVM frame with _ | cme
      · rw [hcme] at hkept
        rw [hkept.1]
        exact selfClass_ne_self
      · rw [hcme] at hkept
        rw [hkept.1]
        exact cmeClass_ne_self
    refine iff_of_false (fun hs => hcontents hs.1) fun hs => hself (.inr ?_)
    rcases htype with rfl | rfl
    · exact .inl hs
    · exact .inr (.inr hs)

theorem Minimizes.methodName_eq (h : Minimizes rt frame before minLoc) :
    minimalLocationMethodName rt minLoc =
      referenceMethodName rt frame.self (frameMethodEntry rt.toVM frame)
        (frameIseq rt.toVM frame) := by
  have hkept := h.methodName
  unfold KeepsMethodName at hkept
  unfold minimalLocationMethodName referenceMethodName referenceNoMethod
  rcases hcme : frameMethodEntry rt.toVM frame with _ | cme
  · rw [hcme] at hkept
    simp only [hkept.1, hkept.2, baseLabel_ne_cmeId, if_false, h.inBlock,
      h.selfHasType_iff (.inl rfl), h.selfHasType_iff (.inr rfl)]
  · rw [hcme] at hkept
    simp only [hkept.1, hkept.2, if_true, h.inBlock]

/-- The name written from a minimal record is the reference name of the frame it was made from. -/
theorem Minimizes.name_eq (h : Minimizes rt frame before minLoc) :
    minimalLocationName rt depth minLoc = frameReferenceName rt depth frame := by
  unfold minimalLocationName frameReferenceName referenceName
  rw [h.qualifier_eq, h.methodName_eq]

theorem frameName_eq (h : frame.Proper rt.toVM) (before : MinimalLocation) :
    frameName rt depth before (locationOfFrame rt frame) = frameReferenceName rt depth frame := by
  obtain ⟨minLoc, hmin, hkeeps⟩ := toMinimalLocation_minimizes h before
  unfold frameName
  rw [hmin, lift_ok, pure_bind, hkeeps.name_eq]

/-- **Naming survives what is dropped at capture.** For every control frame that is captured, what
is written from the raw location, and what is written from a minimal location captured from the
same frame, is the reference name of the frame, whatever the records held before. -/
theorem name_survives_capture (rt : Runtime) (depth : ℕ) (ec : ExecutionContext) (i : ℕ)
    (loc rawLoc : RawLocation) (before : MinimalLocation)
    (hproper : (ec.frameAt (ec.cfp + i)).Proper rt.toVM)
    (hcapture : captureFrameForExecutionContext rt ec i loc = .ok (true, rawLoc)) :
    (∃ minLoc, rawLocationToMinimalLocation rt rawLoc before = .ok minLoc ∧
      minimalLocationName rt depth minLoc =
        frameReferenceName rt depth (ec.frameAt (ec.cfp + i))) ∧
    frameName rt depth before rawLoc = frameReferenceName rt depth (ec.frameAt (ec.cfp + i)) ∧
    ∀ thread, isThreadAlive rt.toVM thread → (rt.threadAt thread).ec = ec →
      ∃ minLoc, captureMinimalFrameForThread rt loc thread i before = .ok (true, minLoc) ∧
        minimalLocationName rt depth minLoc =
          frameReferenceName rt depth (ec.frameAt (ec.cfp + i)) := by
  obtain ⟨-, -, rfl⟩ := capture_ok hcapture
  obtain ⟨minLoc, hmin, hkeeps⟩ := toMinimalLocation_minimizes hproper before
  refine ⟨⟨minLoc, hmin, hkeeps.name_eq⟩, frameName_eq hproper before,
    fun thread halive hec => ⟨minLoc, ?_, hkeeps.name_eq⟩⟩
  unfold captureMinimalFrameForThread
  rw [captureForThread_of_alive halive, hec, hcapture]
  show (rawLocationToMinimalLocation rt (locationOfFrame rt (ec.frameAt (ec.cfp + i))) before >>=
    fun loc => pure (true, loc)) = .ok (true, minLoc)
  rw [hmin]
  rfl

/-- The name of a method called on an object is `Object#m`. -/
theorem name_survives_capture_rubyFrame :
    frameName (bootRuntime (bootThread false [rubyFrame 80])) 1 MinimalLocation.zeroed
        (locationOfFrame (bootRuntime (bootThread false [rubyFrame 80])) (rubyFrame 80)) =
      ⟨[.appendValue (some (lit "Object")), .append (lit "#"), .appendValue (some (lit "m"))],
        .ok ()⟩ := by
  obtain ⟨-, hname, -⟩ := name_survives_capture
    (bootRuntime (bootThread false [rubyFrame 80])) 1 (stackOf [rubyFrame 80]) 0
    RawLocation.zeroed _ MinimalLocation.zeroed (rubyFrame_lawful _ 80).toProper rfl
  exact hname.trans rfl

end Backtracie
