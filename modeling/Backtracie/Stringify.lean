import Backtracie.Lawful
import Backtracie.ReferenceName

/-!
# Turning captured frames into strings

Under the laws of MRI the name, the label and the path of a frame that was captured can be written:
the functions that write them come to an end without a fault and append strings only. So the Ruby
strings a backtrace is made of exist (`frameName_returns`, `frameLabel_returns`,
`frameFilename_returns`), and none of the assertions that would abort the process is reached
(`captured_stringifies`).
-/

namespace Backtracie

open CMem Traced

variable {rt : Runtime} {frame : ControlFrame}

/-! ## Valid frames -/

/-- The validity test does not fault. -/
theorem isValidFrame_ok (h : frame.Proper rt.toVM) :
    ∃ isValid, isValidFrame rt.toVM frame = .ok isValid := by
  unfold isValidFrame
  split
  · exact ⟨_, rfl⟩
  · split
    · exact ⟨_, rfl⟩
    · rcases frameMethodEntry_cases h with ⟨-, h0, -⟩ | ⟨cme, -, hne, hcme, -⟩
      · rw [if_neg (not_not.2 h0)]
        exact ⟨_, rfl⟩
      · rw [if_pos hne, VM.derefMethodEntry_of_some hcme]
        exact ⟨_, rfl⟩

/-- A valid frame is a Ruby frame, or one of a C function. -/
theorem isValidFrame_true (h : frame.Proper rt.toVM)
    (hvalid : isValidFrame rt.toVM frame = .ok true) :
    frame.rubyframeP = true ∨ frame.rubyframeP = false ∧ ∃ cme,
      rt.methodEntryAt frame.vmFrameMethodEntry = some cme ∧ cme.defType = .cfunc ∧
      rtest frame.vmFrameMethodEntry ∧ frameMethodEntry rt.toVM frame = some cme := by
  unfold isValidFrame at hvalid
  split at hvalid
  · cases hvalid
  · split at hvalid
    · next hruby => exact .inl hruby
    · next hruby =>
      rcases frameMethodEntry_cases h with ⟨-, h0, -⟩ | ⟨cme, htest, hne, hcme, hsome⟩
      · rw [if_neg (not_not.2 h0)] at hvalid
        cases hvalid
      · rw [if_pos hne, VM.derefMethodEntry_of_some hcme] at hvalid
        have hcfunc : decide (cme.defType = .cfunc) = true := Except.ok.inj hvalid
        exact .inr ⟨by simpa using hruby, cme, hcme, by simpa using hcfunc, htest, hsome⟩

/-- A valid frame has a method entry, or an iseq. -/
theorem isValidFrame_iseq (h : frame.Lawful rt.toVM)
    (hvalid : isValidFrame rt.toVM frame = .ok true)
    (hcme : frameMethodEntry rt.toVM frame = none) :
    ∃ iseq, rt.iseqAt frame.iseq = some iseq ∧ frameIseq rt.toVM frame = some iseq := by
  rcases isValidFrame_true h.toProper hvalid with hruby | ⟨-, cme, -, -, -, hsome⟩
  · rcases frameIseq_cases h.toProper with ⟨-, h0, -⟩ | ⟨iseq, -, -, hiseq, hsome⟩
    · exact absurd h0 (h.rubyframe_iseq hruby)
    · exact ⟨iseq, hiseq, hsome⟩
  · rw [hcme] at hsome
    cases hsome

/-! ## The strings of a frame -/

/-- The path of a frame, or its absolute path; `Qnil` without one. -/
def framePath (vm : VM) (frame : ControlFrame) (absolute : Bool) : VALUE :=
  match frameIseq vm frame with
  | none => qnil
  | some iseq =>
    if vm.rbType iseq.pathobj = .tString then iseq.pathobj
    else vm.rarrayAref iseq.pathobj (if absolute then pathobjRealpath else pathobjPath)

/-- The path of a frame, if it has one. -/
def pathOf (vm : VM) (frame : ControlFrame) (absolute : Bool) : Option VALUE :=
  if rtest (framePath vm frame absolute) then some (framePath vm frame absolute) else none

/-- The label of a frame: that of its code, or the name of its C function. -/
def labelOf (vm : VM) (frame : ControlFrame) (base : Bool) : Option VALUE :=
  if frame.rubyframeP then
    (frameIseq vm frame).map fun iseq => if base then iseq.baseLabel else iseq.label
  else (frameMethodEntry vm frame).map fun cme => vm.rbId2str cme.defOriginalId

/-- Write a string if there is one, and say so. -/
def writeFound (vm : VM) : Option VALUE → Emit Bool
  | some v => do
    appendValue vm v
    pure true
  | none => pure false

theorem writeFound_ite {vm : VM} {p : Prop} [Decidable p] {v : VALUE} :
    writeFound vm (if p then some v else none) =
      if p then do
        appendValue vm v
        pure true
      else pure false := by
  split <;> rfl

/-! ## Names -/

section

variable (hrt : rt.toVM.Lawful)

include hrt

theorem frameMethodEntry_lawful {cme : MethodEntry}
    (h : frameMethodEntry rt.toVM frame = some cme) : cme.Lawful rt.toVM := by
  unfold frameMethodEntry at h
  split at h
  · cases h
  · exact hrt.methodEntry _ _ h

theorem referenceQualifier_writes {self : VALUE} {cme : Option MethodEntry}
    (hcme : ∀ c, cme = some c → c.Lawful rt.toVM) :
    Writes (fun n => referenceQualifier rt n self cme) () := by
  unfold referenceQualifier
  by_cases hmain : self = rt.mainObjectInstance
  · simp only [hmain, if_true]
    exact append_writes _ (by decide)
  by_cases hfrozen : self = rt.rbMRubyVMFrozenCore
  · simp only [hfrozen, if_true]
    split
    · exact append_writes _ (by decide)
    · exact append_writes _ (by decide)
  by_cases hclass : rt.classOrModuleOrIclass self
  · simp only [hmain, hfrozen, hclass, if_true, if_false]
    exact (modToS_writes hrt.classGraph hclass).andThen (append_writes _ (by decide))
  simp only [hmain, hfrozen, hclass, if_false]
  cases cme with
  | none =>
    have hself : rt.rbType (rt.rbClassOf self) = .tClass :=
      hrt.classOf_class self fun h => hclass (.inr (.inl h))
    exact (modToS_writes hrt.classGraph (.inl hself)).andThen (append_writes _ (by decide))
  | some cme =>
    by_cases hrefinement : isRefinement rt.toVM (rt.rbClassOf cme.definedClass)
    · simp only [hrefinement, if_true]
      exact (modToSRefinement_writes hrt.classGraph hrefinement).andThen
        (append_writes _ (by decide))
    · simp only [hrefinement, if_false]
      exact (modToS_writes hrt.classGraph (hcme cme rfl).definedClass).andThen
        (append_writes _ (by decide))

omit hrt in
theorem appendIf_writes (p : Prop) [Decidable p] (cat : String) (h : NulFree (lit cat)) :
    Writes (fun _ => appendIf p cat) () := by
  unfold appendIf
  split
  · exact append_writes cat h
  · exact Writes.pure ()

omit hrt in
theorem referenceMethodName_writes {self : VALUE} {cme : Option MethodEntry} {iseq : Option Iseq}
    (hcme : ∀ c, cme = some c → c.Lawful rt.toVM)
    (hiseq : cme = none → rt.rbType (baseLabelOf iseq) = .tString) :
    Writes (fun _ => referenceMethodName rt self cme iseq) () := by
  unfold referenceMethodName
  cases cme with
  | some cme =>
    exact (appendValue_writes (hcme cme rfl).calledId).andThen
      (appendIf_writes (isBlockOrEval iseq) "{block}" (by decide))
  | none =>
    unfold referenceNoMethod
    refine (appendIf_writes (rt.rbType self = .tClass) "{class exec}" (by decide)).andThen
      ((appendIf_writes (rt.rbType self = .tModule) "{module exec}" (by decide)).andThen
        ((appendIf_writes (isBlockOrEval iseq) "{block}" (by decide)).andThen ?_))
    split
    · exact appendValue_writes (hiseq rfl)
    · exact Writes.pure ()

/-- **The name of a captured frame can be written.** -/
theorem frameName_writes (h : frame.Lawful rt.toVM)
    (hvalid : isValidFrame rt.toVM frame = .ok true) (before : MinimalLocation) :
    Writes (fun n => frameName rt n before (locationOfFrame rt frame)) () := by
  have hcme : ∀ c, frameMethodEntry rt.toVM frame = some c → c.Lawful rt.toVM :=
    fun c hc => frameMethodEntry_lawful hrt hc
  refine ((referenceQualifier_writes hrt hcme).andThen
    (referenceMethodName_writes hcme fun hnone => ?_)).congr
      fun n => frameName_eq h.toProper before
  obtain ⟨iseq, hiseq, hsome⟩ := isValidFrame_iseq h hvalid hnone
  rw [hsome]
  exact (hrt.iseq _ _ hiseq).baseLabel

/-! ## Paths and labels -/

omit hrt in
theorem pathOfPathobj_ok {iseq : Iseq} (h : iseq.Lawful rt.toVM) (absolute : Bool) :
    pathOfPathobj rt.toVM iseq.pathobj absolute =
      .ok (if rt.rbType iseq.pathobj = .tString then iseq.pathobj
        else rt.rarrayAref iseq.pathobj (if absolute then pathobjRealpath else pathobjPath)) := by
  unfold pathOfPathobj
  by_cases hs : rt.rbType iseq.pathobj = .tString
  · rw [if_pos hs, if_pos hs]
  · obtain ⟨ha, -, -⟩ := h.pathobj.resolve_left hs
    rw [if_neg hs, if_neg hs, if_pos ha]

/-- The path can be written as what it is: nothing, or one string. -/
theorem frameFilename_eq (h : frame.Proper rt.toVM) (absolute : Bool) :
    frameFilename rt.toVM (locationOfFrame rt frame) absolute =
      writeFound rt.toVM (pathOf rt.toVM frame absolute) := by
  show iseqPath rt.toVM frame.iseq absolute = _
  unfold iseqPath pathOf framePath
  rcases frameIseq_cases h with ⟨-, h0, hnone⟩ | ⟨iseq, -, hne, hiseq, hsome⟩
  · rw [if_pos h0, hnone]
    rfl
  · simp only [hne, if_false, VM.derefIseq_of_some hiseq, lift_ok, pure_bind, hsome,
      pathOfPathobj_ok (hrt.iseq _ _ hiseq), writeFound_ite]

omit hrt in
/-- The label can be written as what it is: nothing, or one string. -/
theorem frameLabel_eq (h : frame.Proper rt.toVM) (base : Bool) :
    frameLabel rt.toVM (locationOfFrame rt frame) base =
      writeFound rt.toVM (labelOf rt.toVM frame base) := by
  unfold frameLabel labelOf
  simp only [locationOfFrame]
  by_cases hruby : frame.rubyframeP = true
  · simp only [hruby, if_true]
    rcases frameIseq_cases h with ⟨hntest, -, hnone⟩ | ⟨iseq, htest, -, hiseq, hsome⟩
    · simp only [hntest, hnone, not_false_eq_true, if_true]
      rfl
    · simp only [htest, hsome, not_true, if_false, VM.derefIseq_of_some hiseq]
      rfl
  · simp only [hruby, if_false, Bool.false_eq_true]
    rcases frameMethodEntry_cases h with ⟨hntest, -, hnone⟩ | ⟨cme, htest, -, hcme, hsome⟩
    · simp only [hntest, hnone, not_false_eq_true, if_true]
      rfl
    · simp only [htest, hsome, not_true, if_false, VM.derefMethodEntry_of_some hcme]
      rfl

theorem framePath_string (h : frame.Proper rt.toVM) (absolute : Bool) :
    stringOrNil rt.toVM (framePath rt.toVM frame absolute) := by
  unfold framePath
  rcases frameIseq_cases h with ⟨-, -, hnone⟩ | ⟨iseq, -, -, hiseq, hsome⟩
  · rw [hnone]
    exact fun htest => absurd rfl htest.2
  · rw [hsome]
    simp only
    rcases (hrt.iseq _ _ hiseq).pathobj with hs | ⟨ha, hpath, hreal⟩
    · rw [if_pos hs]
      exact fun _ => hs
    · rw [if_neg (by rw [ha]; decide)]
      cases absolute with
      | true => exact hreal
      | false => exact hpath

/-- The path of a frame is a string. -/
theorem pathOf_string (h : frame.Proper rt.toVM) {absolute : Bool} {v : VALUE}
    (hv : pathOf rt.toVM frame absolute = some v) : rt.rbType v = .tString := by
  unfold pathOf at hv
  split at hv
  · next htest =>
    obtain rfl := Option.some.inj hv
    exact framePath_string hrt h absolute htest
  · cases hv

/-- The label of a frame is a string. -/
theorem labelOf_string (h : frame.Proper rt.toVM) {base : Bool} {v : VALUE}
    (hv : labelOf rt.toVM frame base = some v) : rt.rbType v = .tString := by
  unfold labelOf at hv
  split at hv
  · obtain ⟨iseq, hframe, rfl⟩ := Option.map_eq_some_iff.1 hv
    rcases frameIseq_cases h with ⟨-, -, hnone⟩ | ⟨iseq', -, -, hiseq, hsome⟩
    · rw [hnone] at hframe
      cases hframe
    · obtain rfl := Option.some.inj (hsome.symm.trans hframe)
      cases base with
      | true => exact (hrt.iseq _ _ hiseq).baseLabel
      | false => exact (hrt.iseq _ _ hiseq).label
  · obtain ⟨cme, hframe, rfl⟩ := Option.map_eq_some_iff.1 hv
    exact (frameMethodEntry_lawful hrt hframe).originalId

omit hrt in
/-- A valid frame has a label. -/
theorem labelOf_isSome (h : frame.Lawful rt.toVM) (hvalid : isValidFrame rt.toVM frame = .ok true)
    (base : Bool) : (labelOf rt.toVM frame base).isSome = true := by
  unfold labelOf
  rcases isValidFrame_true h.toProper hvalid with hruby | ⟨hruby, cme, -, -, -, hsome⟩
  · rcases frameIseq_cases h.toProper with ⟨-, h0, -⟩ | ⟨iseq, -, -, -, hsome⟩
    · exact absurd h0 (h.rubyframe_iseq hruby)
    · rw [if_pos hruby, hsome]
      rfl
  · rw [hruby, if_neg Bool.false_ne_true, hsome]
    rfl

omit hrt in
theorem writeFound_writes {found : Option VALUE}
    (h : ∀ v, found = some v → rt.rbType v = .tString) :
    Writes (fun _ => writeFound rt.toVM found) found.isSome := by
  cases found with
  | none => exact Writes.pure _
  | some v => exact (appendValue_writes (h v rfl)).andThen (Writes.pure true)

/-- **The path of a captured frame can be written**, if it has one. -/
theorem frameFilename_writes (h : frame.Proper rt.toVM) (absolute : Bool) :
    Writes (fun _ => frameFilename rt.toVM (locationOfFrame rt frame) absolute)
      (pathOf rt.toVM frame absolute).isSome := by
  rw [frameFilename_eq hrt h]
  exact writeFound_writes fun v hv => pathOf_string hrt h hv

/-- **The label of a captured frame can be written.** -/
theorem frameLabel_writes (h : frame.Lawful rt.toVM)
    (hvalid : isValidFrame rt.toVM frame = .ok true) (base : Bool) :
    Writes (fun _ => frameLabel rt.toVM (locationOfFrame rt frame) base) true := by
  rw [frameLabel_eq h.toProper, ← labelOf_isSome h hvalid base]
  exact writeFound_writes fun v hv => labelOf_string hrt h.toProper hv

/-! ## Ruby strings -/

omit hrt in
theorem Writes.result {α : Type} {a : α} {write : ℕ → Emit α} (h : Writes write a) :
    ∃ N, ∀ n, N ≤ n → (write n).result = .ok a ∧ ∀ p ∈ (write n).trace, p.Proper := by
  obtain ⟨tr, ⟨N, hN⟩, hproper⟩ := h
  refine ⟨N, fun n hn => ⟨(hN n hn).result, ?_⟩⟩
  rw [(hN n hn).trace]
  exact hproper

/-- The name of a captured frame is always the same, whatever the heap and the local variables held
before. -/
theorem frameName_returns (h : frame.Lawful rt.toVM)
    (hvalid : isValidFrame rt.toVM frame = .ok true) :
    ∃ s N, ∀ n, N ≤ n → ∀ junk before,
      (frameNameRbstr junk rt n before (locationOfFrame rt frame)).result = .ok s := by
  obtain ⟨tr, ⟨N, hN⟩, hproper⟩ := frameName_writes hrt h hvalid MinimalLocation.zeroed
  obtain ⟨s, hs⟩ := frameNameRbstr_returns hproper
  refine ⟨s, N, fun n hn junk before => hs junk rt n before _ ?_⟩
  rw [frameName_eq h.toProper, ← frameName_eq h.toProper MinimalLocation.zeroed]
  exact hN n hn

theorem frameLabel_returns (h : frame.Lawful rt.toVM)
    (hvalid : isValidFrame rt.toVM frame = .ok true) (base : Bool) :
    ∃ s, ∀ junk,
      (frameLabelRbstr junk rt (locationOfFrame rt frame) base).result = .ok (some s) := by
  obtain ⟨N, hN⟩ := (frameLabel_writes hrt h hvalid base).result
  obtain ⟨ret, hsome, hret⟩ := rbstrQuery_returns (hN N le_rfl).1 (hN N le_rfl).2
  obtain ⟨s, rfl⟩ := Option.isSome_iff_exists.1 hsome
  exact ⟨s, hret⟩

theorem frameFilename_returns (h : frame.Proper rt.toVM) (absolute : Bool) :
    ∃ ret, ∀ junk,
      (frameFilenameRbstr junk rt (locationOfFrame rt frame) absolute).result = .ok ret := by
  obtain ⟨N, hN⟩ := (frameFilename_writes hrt h absolute).result
  obtain ⟨ret, -, hret⟩ := rbstrQuery_returns (hN N le_rfl).1 (hN N le_rfl).2
  exact ⟨ret, hret⟩

end

/-! ## Every captured frame -/

/-- There is a method entry or an iseq to describe the location, and the queries about it return.
They write strings only, without a fault; a name and both labels are always there. -/
structure Stringifies (rt : Runtime) (loc : RawLocation) : Prop where
  described : rtest loc.callableMethodEntry ∨ rtest loc.iseq
  nameWrites : ∃ N, ∀ depth, N ≤ depth → ∀ before,
    (frameName rt depth before loc).result = .ok () ∧
      ∀ p ∈ (frameName rt depth before loc).trace, p.Proper
  labelWrites : ∀ base, (frameLabel rt.toVM loc base).result = .ok true ∧
    ∀ p ∈ (frameLabel rt.toVM loc base).trace, p.Proper
  filenameWrites : ∀ absolute, ∃ found, (frameFilename rt.toVM loc absolute).result = .ok found ∧
    ∀ p ∈ (frameFilename rt.toVM loc absolute).trace, p.Proper
  name : ∃ s N, ∀ depth, N ≤ depth → ∀ junk before,
    (frameNameRbstr junk rt depth before loc).result = .ok s
  label : ∀ base, ∃ s, ∀ junk, (frameLabelRbstr junk rt loc base).result = .ok (some s)
  filename : ∀ absolute, ∃ ret, ∀ junk, (frameFilenameRbstr junk rt loc absolute).result = .ok ret

/-- A valid frame is never one without a method entry and without an iseq. -/
theorem isValidFrame_described (h : frame.Lawful rt.toVM)
    (hvalid : isValidFrame rt.toVM frame = .ok true) :
    rtest frame.vmFrameMethodEntry ∨ rtest frame.iseq := by
  rcases isValidFrame_true h.toProper hvalid with hruby | ⟨-, cme, -, -, htest, -⟩
  · rcases frameIseq_cases h.toProper with ⟨-, h0, -⟩ | ⟨iseq, htest, -, -, -⟩
    · exact absurd h0 (h.rubyframe_iseq hruby)
    · exact .inr htest
  · exact .inl htest

/-- **Every captured frame can be turned into strings** without aborting the process. -/
theorem captured_stringifies (rt : Runtime) (hrt : rt.toVM.Lawful) (ec : ExecutionContext) (i : ℕ)
    (loc rawLoc : RawLocation) (hframe : (ec.frameAt (ec.cfp + i)).Lawful rt.toVM)
    (hcapture : captureFrameForExecutionContext rt ec i loc = .ok (true, rawLoc)) :
    Stringifies rt rawLoc := by
  obtain ⟨-, hvalid, hloc⟩ := capture_ok hcapture
  obtain rfl : rawLoc = locationOfFrame rt (ec.frameAt (ec.cfp + i)) := hloc
  refine ⟨isValidFrame_described hframe hvalid, ?_, ?_, ?_, frameName_returns hrt hframe hvalid,
    frameLabel_returns hrt hframe hvalid, frameFilename_returns hrt hframe.toProper⟩
  · obtain ⟨N, hN⟩ := (frameName_writes hrt hframe hvalid MinimalLocation.zeroed).result
    refine ⟨N, fun depth hdepth before => ?_⟩
    have hname := hN depth hdepth
    rw [frameName_eq hframe.toProper] at hname
    rwa [frameName_eq hframe.toProper]
  · intro base
    obtain ⟨N, hN⟩ := (frameLabel_writes hrt hframe hvalid base).result
    exact hN N le_rfl
  · intro absolute
    obtain ⟨N, hN⟩ := (frameFilename_writes hrt hframe.toProper absolute).result
    exact ⟨_, hN N le_rfl⟩

/-- A frame of a method written in Ruby, and one of a C function. -/
theorem captured_stringifies_bootThread :
    Stringifies (bootRuntime (bootThread false [rubyFrame 48, cFrame 48]))
        (locationOfFrame (bootRuntime (bootThread false [rubyFrame 48, cFrame 48]))
          (rubyFrame 48)) ∧
      Stringifies (bootRuntime (bootThread false [rubyFrame 48, cFrame 48]))
        (locationOfFrame (bootRuntime (bootThread false [rubyFrame 48, cFrame 48])) (cFrame 48)) :=
  ⟨captured_stringifies _ (bootVM_lawful _) (stackOf [rubyFrame 48, cFrame 48]) 0
      RawLocation.zeroed _ (rubyFrame_lawful _ 48) rfl,
    captured_stringifies _ (bootVM_lawful _) (stackOf [rubyFrame 48, cFrame 48]) 1
      RawLocation.zeroed _ (cFrame_lawful _ 48) rfl⟩

end Backtracie
