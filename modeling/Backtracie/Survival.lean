import Backtracie.RelocatedQueries
import Backtracie.Foundations.Reachability

/-!
# What a collection leaves of the VM

A collection frees what it does not reach from its roots. `VM.Survives vm roots vm'` says that `vm'`
is what became of `vm`: all that is reached from the roots is as it was, and anything may be at the
other addresses. Only the references that the extension reads are followed (`VM.RefersTo`).

* `modToS_survives`: a class that is reached has its name afterwards;
* `minimalLocationName_survives`, `minimalFrameFilename_survives`: so has a minimal record, of which
  only the words are roots that `backtracie.h` says to mark; iseqs and method entries may be gone;
* `frameName_survives`, `frameFilename_survives`, `frameLabel_survives`: for a raw location the
  roots are its three references;
* `VM.survives_swept`: a sweep that frees all else.
-/

namespace Backtracie

open CMem Traced

section

variable (vm : VM)

/-- The object at `v` holds the reference `w`, among those that the extension reads. -/
inductive VM.RefersTo : VALUE → VALUE → Prop
  | classOf (v : VALUE) : VM.RefersTo v (vm.rbClassOf v)
  | klass (v : VALUE) : VM.RefersTo v (vm.rbasicKlass v)
  | superclass (v : VALUE) : VM.RefersTo v (vm.rbClassSuperclass v)
  | classReal (v : VALUE) : VM.RefersTo v (vm.rbClassReal v)
  | modName (v : VALUE) : VM.RefersTo v (vm.rbModName v)
  | attached (v : VALUE) : VM.RefersTo v (vm.attached v)
  | refinedClass (v : VALUE) : VM.RefersTo v (vm.refinedClass v)
  | definedAt (v : VALUE) : VM.RefersTo v (vm.definedAt v)
  | element (v : VALUE) (i : ℕ) : VM.RefersTo v (vm.rarrayAref v i)
  | label {v : VALUE} {iseq : Iseq} (h : vm.iseqAt v = some iseq) : VM.RefersTo v iseq.label
  | baseLabel {v : VALUE} {iseq : Iseq} (h : vm.iseqAt v = some iseq) : VM.RefersTo v iseq.baseLabel
  | pathobj {v : VALUE} {iseq : Iseq} (h : vm.iseqAt v = some iseq) : VM.RefersTo v iseq.pathobj
  | definedClass {v : VALUE} {cme : MethodEntry} (h : vm.methodEntryAt v = some cme) :
    VM.RefersTo v cme.definedClass

/-- What is never freed: `nil`, and the strings of interned names. -/
def VM.Permanent (v : VALUE) : Prop := v = qnil ∨ ∃ id, v = vm.rbId2str id

/-- The object at `v` is reached from the roots of a collection. -/
def VM.Reached (roots : List VALUE) : VALUE → Prop :=
  Reaches vm.RefersTo fun v => v ∈ roots ∨ vm.Permanent v

/-- An object that a class is named from is at `v` in `vm'` as it is in `vm`. -/
structure VM.SameObject (vm' : VM) (v : VALUE) : Prop where
  rbType : vm'.rbType v = vm.rbType v
  rstring : vm'.rstring v = vm.rstring v
  rarrayAref : vm'.rarrayAref v = vm.rarrayAref v
  rbClassOf : vm'.rbClassOf v = vm.rbClassOf v
  rbasicKlass : vm'.rbasicKlass v = vm.rbasicKlass v
  flSingleton : vm'.flSingleton v = vm.flSingleton v
  rmoduleIsRefinement : vm'.rmoduleIsRefinement v = vm.rmoduleIsRefinement v
  rbClassSuperclass : vm'.rbClassSuperclass v = vm.rbClassSuperclass v
  rbClassReal : vm'.rbClassReal v = vm.rbClassReal v
  rbModName : vm'.rbModName v = vm.rbModName v
  attached : vm'.attached v = vm.attached v
  refinedClass : vm'.refinedClass v = vm.refinedClass v
  definedAt : vm'.definedAt v = vm.definedAt v

/-- What is at `v`, if it is an iseq or a method entry, is at `v` in `vm'` as it is in `vm`. -/
structure VM.SameCode (vm' : VM) (v : VALUE) : Prop where
  iseqAt : vm'.iseqAt v = vm.iseqAt v
  methodEntryAt : vm'.methodEntryAt v = vm.methodEntryAt v
  rbIseqLineNo : vm'.rbIseqLineNo v = vm.rbIseqLineNo v

/-- After a collection with the given roots: all objects that are reached are as they were, and so
are the constants of the VM. Iseqs and method entries need not be. -/
structure VM.ObjectsSurvive (roots : List VALUE) (vm' : VM) : Prop where
  object : ∀ v, vm.Reached roots v → vm.SameObject vm' v
  rbId2str : vm'.rbId2str = vm.rbId2str
  rbCModule : vm'.rbCModule = vm.rbCModule
  rbCClass : vm'.rbCClass = vm.rbCClass
  rbMRubyVMFrozenCore : vm'.rbMRubyVMFrozenCore = vm.rbMRubyVMFrozenCore

/-- After a collection with the given roots: all that is reached is as it was. -/
structure VM.Survives (roots : List VALUE) (vm' : VM) : Prop
    extends VM.ObjectsSurvive vm roots vm' where
  code : ∀ v, vm.Reached roots v → vm.SameCode vm' v

end

/-- The VM after a sweep: what is not reached is freed, so that no string, iseq or method entry is
there any more. -/
noncomputable def VM.swept (vm : VM) (roots : List VALUE) : VM :=
  open Classical in
  { vm with
    rbType := fun v => if vm.Reached roots v then vm.rbType v else .tOther
    rstring := fun v =>
      if vm.Reached roots v then vm.rstring v else { bytes := [], encoding := encAscii8bit }
    iseqAt := fun v => if vm.Reached roots v then vm.iseqAt v else none
    methodEntryAt := fun v => if vm.Reached roots v then vm.methodEntryAt v else none }

/-- **A sweep** keeps all that is reached. -/
theorem VM.survives_swept (vm : VM) (roots : List VALUE) : vm.Survives roots (vm.swept roots) where
  object _ hv :=
    ⟨if_pos hv, if_pos hv, rfl, rfl, rfl, rfl, rfl, rfl, rfl, rfl, rfl, rfl, rfl⟩
  rbId2str := rfl
  rbCModule := rfl
  rbCClass := rfl
  rbMRubyVMFrozenCore := rfl
  code _ hv := ⟨if_pos hv, if_pos hv, rfl⟩

/-- What `backtracie.h` says to mark of a minimal record: the two words that always hold objects,
and the base label, if that is what the third one holds. -/
def MinimalLocation.references (minLoc : MinimalLocation) : List VALUE :=
  if minLoc.methodNameContents = methodNameContentsCmeId then
    [minLoc.filename, minLoc.methodQualifier]
  else [minLoc.filename, minLoc.methodQualifier, minLoc.methodName]

section

variable {vm vm' : VM} {rt : Runtime} {roots : List VALUE} {v : VALUE}

theorem VM.Reached.of_mem (h : v ∈ roots) : vm.Reached roots v := .root (.inl h)

theorem reached_nil : vm.Reached roots qnil := .root (.inr (.inl rfl))

theorem reached_rbId2str (id : ID) : vm.Reached roots (vm.rbId2str id) :=
  .root (.inr (.inr ⟨id, rfl⟩))

/-! ## Classes and modules -/

variable (h : vm.ObjectsSurvive roots vm')

include h

theorem stringContent_survives (hv : vm.Reached roots v) :
    vm'.stringContent v = vm.stringContent v := by
  unfold VM.stringContent
  rw [(h.object v hv).rbType, (h.object v hv).rstring]

theorem appendValue_survives (hv : vm.Reached roots v) : appendValue vm' v = appendValue vm v := by
  unfold appendValue
  rw [stringContent_survives h hv]

theorem classOrModuleOrIclass_survives (hv : vm.Reached roots v) :
    vm'.classOrModuleOrIclass v ↔ vm.classOrModuleOrIclass v := by
  unfold VM.classOrModuleOrIclass
  rw [(h.object v hv).rbType]

/-- The search for a class follows the classes of the objects. -/
theorem modToSAnonClass_survives (rounds : ℕ) (hv : vm.Reached roots v) :
    modToSAnonClass vm' rounds v = modToSAnonClass vm rounds v := by
  induction rounds generalizing v with
  | zero => rfl
  | succ rounds ih =>
    unfold modToSAnonClass
    rw [(h.object v hv).rbType, (h.object v hv).rbClassOf, ih (hv.step (.classOf v))]

omit h in
theorem modToSAnonClass_reached {rounds : ℕ} {tr : List Piece} {c : VALUE}
    (hv : vm.Reached roots v) (hc : (modToSAnonClass vm rounds v).Yields tr c) :
    vm.Reached roots c := by
  induction rounds generalizing v with
  | zero => cases hc
  | succ rounds ih =>
    unfold modToSAnonClass at hc
    split at hc
    · cases hc
      exact hv
    · exact ih (hv.step (.classOf v)) hc

theorem modToSAnonName_survives (rounds : ℕ) (hv : vm.Reached roots v) :
    modToSAnonName vm' rounds v = modToSAnonName vm rounds v := by
  induction rounds generalizing v with
  | zero => rfl
  | succ rounds ih =>
    have hsuper : vm.Reached roots (vm.rbClassSuperclass v) := hv.step (.superclass v)
    unfold modToSAnonName
    simp only [(h.object v hv).rbClassSuperclass, (h.object _ hsuper).rbModName, ih hsuper]

omit h in
theorem modToSAnonName_reached {rounds : ℕ} {tr : List Piece} {name : VALUE}
    (hv : vm.Reached roots v) (hname : (modToSAnonName vm rounds v).Yields tr name) :
    vm.Reached roots name := by
  induction rounds generalizing v with
  | zero => cases hname
  | succ rounds ih =>
    have hsuper : vm.Reached roots (vm.rbClassSuperclass v) := hv.step (.superclass v)
    unfold modToSAnonName at hname
    simp only at hname
    split at hname
    · cases hname
    · split at hname
      · exact ih hsuper hname
      · cases hname
        exact hsuper.step (.modName _)

theorem modToSAnon_survives (rounds : ℕ) (hv : vm.Reached roots v) :
    modToSAnon vm' rounds v = modToSAnon vm rounds v := by
  unfold modToSAnon
  rw [modToSAnonClass_survives h rounds hv]
  refine bind_congr_of_yields fun tr c hc => ?_
  have hreached := modToSAnonClass_reached hv hc
  rw [modToSAnonName_survives h rounds hreached]
  exact bind_congr_of_yields fun tr name hname =>
    appendValue_survives h (modToSAnonName_reached hreached hname)

theorem singletonOf_survives (hv : vm.Reached roots v) :
    singletonOf vm' v = singletonOf vm v := by
  unfold singletonOf
  rw [(h.object v hv).rbClassReal, (h.object v hv).attached, h.rbCModule, h.rbCClass]

omit h in
theorem singletonOf_reached (hv : vm.Reached roots v) : vm.Reached roots (singletonOf vm v) := by
  unfold singletonOf
  simp only
  split
  · exact hv.step (.attached v)
  · exact hv.step (.classReal v)

/-- **A class that is reached** has the same name afterwards. -/
theorem modToS_survives (depth : ℕ) (hv : vm.Reached roots v) :
    modToS vm' depth v = modToS vm depth v := by
  induction depth generalizing v with
  | zero => rfl
  | succ depth ih =>
    have hname : vm.Reached roots (vm.rbModName v) := hv.step (.modName v)
    unfold modToS modToSSingleton
    simp only [(h.object v hv).flSingleton, (h.object v hv).rbModName, (h.object v hv).rbType,
      (h.object v hv).rbasicKlass, singletonOf_survives h hv, ih (singletonOf_reached hv),
      ih (hv.step (.klass v)), modToSAnon_survives h depth hv, appendValue_survives h hname]

theorem modToSRefinement_survives (depth : ℕ) (hv : vm.Reached roots v) :
    modToSRefinement vm' depth v = modToSRefinement vm depth v := by
  unfold modToSRefinement
  simp only [(h.object v hv).refinedClass, (h.object v hv).definedAt,
    modToS_survives h depth (hv.step (.refinedClass v)),
    modToS_survives h depth (hv.step (.definedAt v))]

theorem isRefinement_survives (hv : vm.Reached roots v) :
    isRefinement vm' v ↔ isRefinement vm v := by
  unfold isRefinement
  rw [(h.object v hv).rmoduleIsRefinement]

end

/-- The same extension in a VM that has become another. -/
def Runtime.withVM (rt : Runtime) (vm : VM) : Runtime :=
  { toVM := vm, mainObjectInstance := rt.mainObjectInstance }

section

variable {rt : Runtime} {vm : VM} {roots : List VALUE} {minLoc before : MinimalLocation}
  {loc : RawLocation}

/-! ## Minimal records -/

section

variable (h : rt.toVM.ObjectsSurvive roots vm)

include h

theorem methodTargetQualifier_survives (depth : ℕ)
    (hq : rt.toVM.Reached roots minLoc.methodQualifier) :
    methodTargetQualifier (rt.withVM vm) depth minLoc = methodTargetQualifier rt depth minLoc := by
  unfold methodTargetQualifier Runtime.withVM
  simp only [(h.object _ hq).rbClassOf, modToS_survives h depth hq,
    modToS_survives h depth (hq.step (.classOf _))]

theorem methodQualifier_survives (depth : ℕ)
    (hq : rt.toVM.Reached roots minLoc.methodQualifier) :
    minimalLocationMethodQualifier (rt.withVM vm) depth minLoc =
      minimalLocationMethodQualifier rt depth minLoc := by
  have hclass : rt.toVM.Reached roots (rt.rbClassOf minLoc.methodQualifier) :=
    hq.step (.classOf _)
  unfold minimalLocationMethodQualifier
  rw [methodTargetQualifier_survives h depth hq]
  unfold Runtime.withVM
  simp only [h.rbMRubyVMFrozenCore, (h.object _ hq).rbClassOf, isRefinement_survives h hclass,
    modToSRefinement_survives h depth hclass, classOrModuleOrIclass_survives h hq,
    modToS_survives h depth hq]

theorem methodName_survives (hq : rt.toVM.Reached roots minLoc.methodQualifier)
    (hn : minLoc.methodNameContents ≠ methodNameContentsCmeId →
      rt.toVM.Reached roots minLoc.methodName) :
    minimalLocationMethodName (rt.withVM vm) minLoc = minimalLocationMethodName rt minLoc := by
  have htype : ∀ type, selfHasType (rt.withVM vm) minLoc type ↔ selfHasType rt minLoc type := by
    intro type
    unfold selfHasType Runtime.withVM
    rw [(h.object _ hq).rbType]
  unfold minimalLocationMethodName
  simp only [htype]
  unfold Runtime.withVM
  by_cases hid : minLoc.methodNameContents = methodNameContentsCmeId
  · simp only [hid, if_true, h.rbId2str, appendValue_survives h (reached_rbId2str _)]
  · simp only [hid, if_false, appendValue_survives h (hn hid)]

/-- **A minimal record** has the same name afterwards, if what it refers to is reached. -/
theorem minimalLocationName_survives (depth : ℕ)
    (hq : rt.toVM.Reached roots minLoc.methodQualifier)
    (hn : minLoc.methodNameContents ≠ methodNameContentsCmeId →
      rt.toVM.Reached roots minLoc.methodName) :
    minimalLocationName (rt.withVM vm) depth minLoc = minimalLocationName rt depth minLoc := by
  unfold minimalLocationName
  rw [methodQualifier_survives h depth hq, methodName_survives h hq hn]

/-- And the same filename. -/
theorem minimalFrameFilename_survives (hf : rt.toVM.Reached roots minLoc.filename) :
    minimalFrameFilename (rt.withVM vm) minLoc = minimalFrameFilename rt minLoc := by
  unfold minimalFrameFilename Runtime.withVM
  rw [appendValue_survives h hf]

end

/-! ## Raw locations -/

theorem iseqAt_of_derefIseq {v : VALUE} {iseq : Iseq} (h : vm.derefIseq v = .ok iseq) :
    vm.iseqAt v = some iseq := by
  unfold VM.derefIseq at h
  split at h
  · next hat => rw [hat, Except.ok.inj h]
  · cases h

theorem methodEntryAt_of_derefMethodEntry {v : VALUE} {cme : MethodEntry}
    (h : vm.derefMethodEntry v = .ok cme) : vm.methodEntryAt v = some cme := by
  unfold VM.derefMethodEntry at h
  split at h
  · next hat => rw [hat, Except.ok.inj h]
  · cases h

theorem fillIseqType_methodName {m m' : MinimalLocation} (h : fillIseqType rt loc m = .ok m') :
    m'.methodNameContents = m.methodNameContents ∧ m'.methodName = m.methodName := by
  unfold fillIseqType at h
  split at h
  · obtain ⟨iseq, -, h⟩ := except_bind_ok h
    obtain ⟨lineNumber, -, h⟩ := except_bind_ok h
    cases h
    exact ⟨rfl, rfl⟩
  · cases h
    exact ⟨rfl, rfl⟩

theorem fillMethodQualifier_methodName {m m' : MinimalLocation}
    (h : fillMethodQualifier rt loc m = .ok m') :
    m'.methodNameContents = m.methodNameContents ∧ m'.methodName = m.methodName := by
  unfold fillMethodQualifier at h
  split at h
  · cases h
    exact ⟨rfl, rfl⟩
  · split at h
    · obtain ⟨cme, -, h⟩ := except_bind_ok h
      cases h
      exact ⟨rfl, rfl⟩
    · cases h
      exact ⟨rfl, rfl⟩

section

variable (h : rt.toVM.Survives roots vm) (hloc : ∀ v ∈ loc.references, rt.toVM.Reached roots v)

include hloc

theorem iseq_reached : rt.toVM.Reached roots loc.iseq := hloc _ (by simp [RawLocation.references])

theorem callableMethodEntry_reached : rt.toVM.Reached roots loc.callableMethodEntry :=
  hloc _ (by simp [RawLocation.references])

theorem selfOrSelfClass_reached : rt.toVM.Reached roots loc.selfOrSelfClass :=
  hloc _ (by simp [RawLocation.references])

include h

theorem derefIseq_survives : vm.derefIseq loc.iseq = rt.derefIseq loc.iseq := by
  unfold VM.derefIseq
  rw [(h.code _ (iseq_reached hloc)).iseqAt]

theorem derefMethodEntry_survives :
    vm.derefMethodEntry loc.callableMethodEntry = rt.derefMethodEntry loc.callableMethodEntry := by
  unfold VM.derefMethodEntry
  rw [(h.code _ (callableMethodEntry_reached hloc)).methodEntryAt]

/-- The line number of a location. -/
theorem frameLineNumber_survives :
    frameLineNumber (rt.withVM vm) loc = frameLineNumber rt loc := by
  unfold frameLineNumber calcLineno Runtime.withVM
  rw [derefIseq_survives h hloc, (h.code _ (iseq_reached hloc)).rbIseqLineNo]

/-- The same minimal record is made of a location. -/
theorem toMinimalLocation_survives (before : MinimalLocation) :
    rawLocationToMinimalLocation (rt.withVM vm) loc before =
      rawLocationToMinimalLocation rt loc before := by
  have hline := frameLineNumber_survives h hloc
  unfold frameLineNumber at hline
  have hname : ∀ m, fillMethodName (rt.withVM vm) loc m = fillMethodName rt loc m := by
    intro m
    unfold fillMethodName Runtime.withVM
    rw [derefIseq_survives h hloc, derefMethodEntry_survives h hloc]
  have htype : ∀ m, fillIseqType (rt.withVM vm) loc m = fillIseqType rt loc m := by
    intro m
    unfold fillIseqType
    rw [hline]
    unfold Runtime.withVM
    rw [derefIseq_survives h hloc]
  have hqualifier : ∀ m, fillMethodQualifier (rt.withVM vm) loc m =
      fillMethodQualifier rt loc m := by
    intro m
    unfold fillMethodQualifier Runtime.withVM
    rw [derefMethodEntry_survives h hloc]
  unfold rawLocationToMinimalLocation
  simp only [hname, htype, hqualifier]

omit h in
theorem fillMethodName_reached {m m' : MinimalLocation} (hm : fillMethodName rt loc m = .ok m') :
    m'.methodNameContents ≠ methodNameContentsCmeId → rt.toVM.Reached roots m'.methodName := by
  unfold fillMethodName at hm
  split at hm
  · obtain ⟨cme, -, hm⟩ := except_bind_ok hm
    cases hm
    exact fun hne => absurd rfl hne
  · split at hm
    · obtain ⟨iseq, hiseq, hm⟩ := except_bind_ok hm
      cases hm
      exact fun _ => (iseq_reached hloc).step (.baseLabel (iseqAt_of_derefIseq hiseq))
    · cases hm
      exact fun _ => reached_nil

omit h in
theorem fillMethodQualifier_reached {m m' : MinimalLocation}
    (hm : fillMethodQualifier rt loc m = .ok m') : rt.toVM.Reached roots m'.methodQualifier := by
  unfold fillMethodQualifier at hm
  split at hm
  · cases hm
    exact selfOrSelfClass_reached hloc
  · split at hm
    · obtain ⟨cme, hcme, hm⟩ := except_bind_ok hm
      cases hm
      exact (callableMethodEntry_reached hloc).step
        (.definedClass (methodEntryAt_of_derefMethodEntry hcme))
    · cases hm
      exact selfOrSelfClass_reached hloc

omit h in
/-- What the minimal record of a location refers to is reached from the location. -/
theorem toMinimalLocation_reached
    (hm : rawLocationToMinimalLocation rt loc before = .ok minLoc) :
    rt.toVM.Reached roots minLoc.methodQualifier ∧
      (minLoc.methodNameContents ≠ methodNameContentsCmeId →
        rt.toVM.Reached roots minLoc.methodName) := by
  obtain ⟨m₁, hm₁, hm⟩ := except_bind_ok hm
  obtain ⟨m₂, hm₂, hm₃⟩ := except_bind_ok hm
  refine ⟨fillMethodQualifier_reached hloc hm₃, ?_⟩
  -- the other two parts leave the name of the method alone
  obtain ⟨hcontents₂, hname₂⟩ := fillIseqType_methodName hm₂
  obtain ⟨hcontents₃, hname₃⟩ := fillMethodQualifier_methodName hm₃
  rw [hcontents₃, hcontents₂, hname₃, hname₂]
  exact fillMethodName_reached hloc hm₁

/-- **A raw location** has the same name afterwards. -/
theorem frameName_survives (depth : ℕ) (before : MinimalLocation) :
    frameName (rt.withVM vm) depth before loc = frameName rt depth before loc := by
  unfold frameName
  rw [toMinimalLocation_survives h hloc]
  refine bind_congr_of_yields fun tr m hm => ?_
  obtain ⟨hq, hn⟩ := toMinimalLocation_reached hloc hm.result
  exact minimalLocationName_survives h.toObjectsSurvive depth hq hn

/-- The same path. -/
theorem frameFilename_survives (absolute : Bool) :
    frameFilename vm loc absolute = frameFilename rt.toVM loc absolute := by
  unfold frameFilename iseqPath
  split
  · rfl
  rw [derefIseq_survives h hloc]
  refine bind_congr_of_yields fun tr body hbody => ?_
  have hpathobj : rt.toVM.Reached roots body.pathobj :=
    (iseq_reached hloc).step (.pathobj (iseqAt_of_derefIseq hbody.result))
  have hsame := h.object _ hpathobj
  unfold pathOfPathobj
  rw [hsame.rbType, hsame.rarrayAref]
  refine bind_congr_of_yields fun tr path hpath => ?_
  have hreached : rt.toVM.Reached roots path := by
    have hpath := hpath.result
    simp only [lift] at hpath
    split at hpath
    · cases hpath
      exact hpathobj
    · split at hpath
      · cases hpath
        exact hpathobj.step (.element _ _)
      · cases hpath
  rw [appendValue_survives h.toObjectsSurvive hreached]

/-- And the same label. -/
theorem frameLabel_survives (base : Bool) :
    frameLabel vm loc base = frameLabel rt.toVM loc base := by
  unfold frameLabel
  rw [derefIseq_survives h hloc, derefMethodEntry_survives h hloc]
  split
  · split
    · rfl
    · refine bind_congr_of_yields fun tr iseq hiseq => ?_
      have hat := iseqAt_of_derefIseq hiseq.result
      have hlabel : rt.toVM.Reached roots (if base then iseq.baseLabel else iseq.label) := by
        split
        · exact (iseq_reached hloc).step (.baseLabel hat)
        · exact (iseq_reached hloc).step (.label hat)
      rw [appendValue_survives h.toObjectsSurvive hlabel]
  · split
    · rfl
    · simp only [h.rbId2str, appendValue_survives h.toObjectsSurvive (reached_rbId2str _)]

/-- The same code object is selected for `rb_profile_frames`. -/
theorem frameForRbProfile_survives :
    frameForRbProfile (rt.withVM vm) loc = frameForRbProfile rt loc := by
  unfold frameForRbProfile iseqIsEval cmeIsNotIseq Runtime.withVM
  by_cases htest : rtest loc.iseq
  · simp only [if_pos htest, derefIseq_survives h hloc, ite_self, if_true]
  · simp only [if_neg htest, ite_self, if_true]

end

end

end Backtracie
