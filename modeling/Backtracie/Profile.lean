import Backtracie.Collect
import Backtracie.Stringify

/-!
# The frame for `rb_profile_frames`

`backtracie_frame_for_rb_profile` should select the iseq of an eval, else the method entry of
anything but an iseq method, else the iseq (`profileFrameOf`). It copies the method entry into a
local variable first; but what it assigns is the variable itself, which is NULL. So it selects the
iseq whenever there is one and `Qnil` otherwise (`frameForRbProfile_eq`), and it is right exactly
for evals, for frames without a method entry, and for methods that are iseqs
(`frameForRbProfile_iff`).
-/

namespace Backtracie

open CMem Traced

variable {rt : Runtime} {frame : ControlFrame}

/-- The code is that of an eval. -/
def isEval : Option Iseq → Prop
  | some iseq => iseqTypeIsEval iseq.type.code
  | none => False

/-- The method is not defined by an iseq. -/
def isNonIseqMethod : Option MethodEntry → Prop
  | some cme => cme.defType ≠ .iseq
  | none => False

instance : DecidablePred isEval
  | some iseq => inferInstanceAs (Decidable (iseqTypeIsEval iseq.type.code))
  | none => inferInstanceAs (Decidable False)

instance : DecidablePred isNonIseqMethod
  | some cme => inferInstanceAs (Decidable (cme.defType ≠ .iseq))
  | none => inferInstanceAs (Decidable False)

/-- What the selection should be. -/
def profileFrameOf (vm : VM) (frame : ControlFrame) : VALUE :=
  if isEval (frameIseq vm frame) then frame.iseq
  else if isNonIseqMethod (frameMethodEntry vm frame) then frame.vmFrameMethodEntry
  else frame.iseq

section

variable {loc : RawLocation}

theorem frameForRbProfile_of_no_iseq (h : ¬rtest loc.iseq) :
    frameForRbProfile rt loc = .ok qnil := by
  unfold frameForRbProfile cmeIsNotIseq iseqIsEval
  simp only [h, ite_self, if_true, if_false]
  rfl

theorem frameForRbProfile_of_iseq {iseq : Iseq} (h : rtest loc.iseq)
    (hiseq : rt.iseqAt loc.iseq = some iseq) : frameForRbProfile rt loc = .ok loc.iseq := by
  have hne : loc.iseq ≠ 0 := h.1
  have hlast : (if loc.iseq ≠ 0 then pure loc.iseq else pure qnil : Except Fault VALUE) =
      .ok loc.iseq := if_pos hne
  unfold frameForRbProfile cmeIsNotIseq iseqIsEval
  simp only [h, hne, ite_self, if_true, if_false, VM.derefIseq_of_some hiseq]
  show (if decide (iseqTypeIsEval iseq.type.code) = true then pure loc.iseq
    else if loc.iseq ≠ 0 then pure loc.iseq else pure qnil : Except Fault VALUE) = .ok loc.iseq
  rw [hlast]
  exact ite_self _

end

/-- **What the selection is**: the iseq, if there is one. -/
theorem frameForRbProfile_eq (h : frame.Proper rt.toVM) :
    frameForRbProfile rt (locationOfFrame rt frame) =
      .ok (if frame.iseq = 0 then qnil else frame.iseq) := by
  rcases frameIseq_cases h with ⟨hntest, h0, -⟩ | ⟨iseq, htest, hne, hiseq, -⟩
  · rw [if_pos h0]
    exact frameForRbProfile_of_no_iseq hntest
  · rw [if_neg hne]
    exact frameForRbProfile_of_iseq htest hiseq

/-! ## When the selection is right -/

theorem isEval_iseq (h : isEval (frameIseq rt.toVM frame)) : frame.iseq ≠ 0 := by
  intro h0
  rw [frameIseq, if_pos h0] at h
  exact h

/-- A method entry is neither `Qnil` nor an iseq. -/
theorem methodEntry_ne_iseq (hvm : rt.toVM.Lawful) (h : frame.Proper rt.toVM)
    (hmethod : isNonIseqMethod (frameMethodEntry rt.toVM frame)) :
    frame.vmFrameMethodEntry ≠ if frame.iseq = 0 then qnil else frame.iseq := by
  intro heq
  rcases frameMethodEntry_cases h with ⟨-, -, hnone⟩ | ⟨cme, htest, -, hcme, -⟩
  · rw [hnone] at hmethod
    exact hmethod
  · rcases frameIseq_cases h with ⟨-, h0, -⟩ | ⟨iseq, -, hne, hiseq, -⟩
    · rw [if_pos h0] at heq
      exact htest.2 heq
    · rw [if_neg hne] at heq
      rw [heq, hvm.iseq_or_methodEntry _ _ hiseq] at hcme
      cases hcme

/-- A valid frame that is not one of a C function has an iseq. -/
theorem iseq_ne_zero (h : frame.Lawful rt.toVM) (hvalid : isValidFrame rt.toVM frame = .ok true)
    (hmethod : ¬isNonIseqMethod (frameMethodEntry rt.toVM frame)) : frame.iseq ≠ 0 := by
  rcases isValidFrame_true h.toProper hvalid with hruby | ⟨-, cme, -, hcfunc, -, hsome⟩
  · exact h.rubyframe_iseq hruby
  · refine absurd ?_ hmethod
    rw [hsome, isNonIseqMethod, hcfunc]
    decide

theorem profileFrameOf_eq_iff (hvm : rt.toVM.Lawful) (h : frame.Lawful rt.toVM)
    (hvalid : isValidFrame rt.toVM frame = .ok true) :
    (if frame.iseq = 0 then qnil else frame.iseq) = profileFrameOf rt.toVM frame ↔
      isEval (frameIseq rt.toVM frame) ∨ ¬isNonIseqMethod (frameMethodEntry rt.toVM frame) := by
  unfold profileFrameOf
  by_cases heval : isEval (frameIseq rt.toVM frame)
  · simp only [heval, isEval_iseq heval, if_true, if_false, true_or]
  by_cases hmethod : isNonIseqMethod (frameMethodEntry rt.toVM frame)
  · simp only [heval, hmethod, if_true, if_false, not_true, or_false, iff_false]
    exact (methodEntry_ne_iseq hvm h.toProper hmethod).symm
  · simp only [heval, hmethod, if_false, not_false_eq_true, or_true, iff_true]
    exact if_neg (iseq_ne_zero h hvalid hmethod)

/-- The selection is what it should be, it is not `Qnil`, and so the debug information of the
location has an entry for it. -/
def SelectsProfileFrame (rt : Runtime) (frame : ControlFrame) (loc : RawLocation) : Prop :=
  frameForRbProfile rt loc = .ok (profileFrameOf rt.toVM frame) ∧
    profileFrameOf rt.toVM frame ≠ qnil ∧
    ∃ debug, debugRawLocation rt loc = .ok debug ∧ debug.rbProfileFrames.isSome

/-- **The selection for `rb_profile_frames` is right** exactly for frames of an eval, frames without
a method entry, and frames of methods defined by an iseq. -/
theorem frameForRbProfile_iff (rt : Runtime) (hrt : rt.toVM.Lawful) (ec : ExecutionContext) (i : ℕ)
    (loc rawLoc : RawLocation) (hframe : (ec.frameAt (ec.cfp + i)).Lawful rt.toVM)
    (hcapture : captureFrameForExecutionContext rt ec i loc = .ok (true, rawLoc)) :
    SelectsProfileFrame rt (ec.frameAt (ec.cfp + i)) rawLoc ↔
      isEval (frameIseq rt.toVM (ec.frameAt (ec.cfp + i))) ∨
        ¬isNonIseqMethod (frameMethodEntry rt.toVM (ec.frameAt (ec.cfp + i))) := by
  obtain ⟨-, hvalid, rfl⟩ := capture_ok hcapture
  have hselect := frameForRbProfile_eq hframe.toProper
  constructor
  · rintro ⟨hright, -⟩
    rw [if_pos rfl, hselect] at hright
    exact (profileFrameOf_eq_iff hrt hframe hvalid).1 (Except.ok.inj hright)
  · intro hkind
    have hright := (profileFrameOf_eq_iff hrt hframe hvalid).2 hkind
    have hne : (ec.frameAt (ec.cfp + i)).iseq ≠ 0 := by
      rcases hkind with heval | hmethod
      · exact isEval_iseq heval
      · exact iseq_ne_zero hframe hvalid hmethod
    have hnil : profileFrameOf rt.toVM (ec.frameAt (ec.cfp + i)) ≠ qnil := by
      rcases frameIseq_cases hframe.toProper with ⟨-, h0, -⟩ | ⟨iseq, htest, -, -, -⟩
      · exact absurd h0 hne
      · rw [← hright, if_neg hne]
        exact htest.2
    rw [if_pos rfl]
    rw [hright] at hselect
    refine ⟨hselect, hnil, ?_⟩
    unfold debugRawLocation
    rw [hselect]
    refine ⟨_, rfl, ?_⟩
    show (debugFrame rt _).isSome
    rw [debugFrame, if_neg hnil]
    rfl

/-- It is right for a method written in Ruby. -/
theorem frameForRbProfile_iff_rubyFrame :
    SelectsProfileFrame (bootRuntime (bootThread false [rubyFrame 48])) (rubyFrame 48)
      (locationOfFrame (bootRuntime (bootThread false [rubyFrame 48])) (rubyFrame 48)) := by
  have hselect := frameForRbProfile_iff (bootRuntime (bootThread false [rubyFrame 48]))
    (bootVM_lawful _) (stackOf [rubyFrame 48]) 0 RawLocation.zeroed _ (rubyFrame_lawful _ 48) rfl
  exact hselect.2 (.inr (not_not.2 rfl))

/-- **The selection is wrong for a C function**: the frame is captured, with its method entry, but
what is selected is `Qnil`. -/
theorem frameForRbProfile_cFrame :
    captureFrameForExecutionContext (bootRuntime (bootThread false [cFrame 48]))
        (stackOf [cFrame 48]) 0 RawLocation.zeroed =
      .ok (true, locationOfFrame (bootRuntime (bootThread false [cFrame 48])) (cFrame 48)) ∧
    (locationOfFrame (bootRuntime (bootThread false [cFrame 48])) (cFrame 48)).callableMethodEntry =
      72 ∧
    profileFrameOf (bootVM (bootThread false [cFrame 48])) (cFrame 48) = 72 ∧
    frameForRbProfile (bootRuntime (bootThread false [cFrame 48]))
      (locationOfFrame (bootRuntime (bootThread false [cFrame 48])) (cFrame 48)) = .ok qnil ∧
    ¬SelectsProfileFrame (bootRuntime (bootThread false [cFrame 48])) (cFrame 48)
      (locationOfFrame (bootRuntime (bootThread false [cFrame 48])) (cFrame 48)) := by
  refine ⟨rfl, rfl, rfl, rfl, fun hselect => ?_⟩
  have hwrong : qnil = 72 := Except.ok.inj hselect.1
  exact absurd hwrong (by decide)

end Backtracie
