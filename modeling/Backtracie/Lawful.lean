import Backtracie.ClassGraph
import Backtracie.MinimalRecord
import Backtracie.Queries

/-!
# What MRI guarantees

`VM.Lawful` states what the extension relies on in MRI: how classes, modules, included modules and
singleton classes hang together, which accessors yield strings, and what the pointers of a control
frame point at. Its classes form a graph in which every class can be named (`VM.Lawful.classGraph`).
-/

namespace Backtracie

open CMem Traced

section

variable (vm : VM)

/-- What an iseq of MRI has. -/
structure Iseq.Lawful (iseq : Iseq) : Prop where
  label : vm.rbType iseq.label = .tString
  baseLabel : vm.rbType iseq.baseLabel = .tString
  /-- The path object is a string, or an array of a path and a real path. -/
  pathobj : vm.rbType iseq.pathobj = .tString ∨ vm.rbType iseq.pathobj = .tArray ∧
    stringOrNil vm (vm.rarrayAref iseq.pathobj pathobjPath) ∧
    stringOrNil vm (vm.rarrayAref iseq.pathobj pathobjRealpath)

/-- What a method entry of MRI has. -/
structure MethodEntry.Lawful (cme : MethodEntry) : Prop where
  calledId : vm.rbType (vm.rbId2str cme.calledId) = .tString
  originalId : vm.rbType (vm.rbId2str cme.defOriginalId) = .tString
  definedClass : vm.classOrModuleOrIclass cme.definedClass

end

/-- The guarantees of MRI. -/
structure VM.Lawful (vm : VM) : Prop where
  /-- Classes are neither `nil` nor `false`. -/
  class_rtest : ∀ v, vm.rbType v = .tClass → rtest v
  /-- What the klass pointer of an object that is not an included module points at. -/
  classOf_class : ∀ v, vm.rbType v ≠ .tIClass → vm.rbType (vm.rbClassOf v) = .tClass
  /-- The klass pointer of an included module points at the module, or at a class. -/
  iclass_klass : ∀ v, vm.rbType v = .tIClass → classOrModule vm (vm.rbasicKlass v)
  /-- A module is an instance of `Module`, or of a subclass of it. -/
  module_class : ∀ v, vm.rbType v = .tModule → vm.rbClassOf v ≠ vm.rbCBasicObject
  descends : ∀ v, vm.rbType v = .tClass → Descends vm v
  basicObject_named : rtest (vm.rbModName vm.rbCBasicObject)
  modName_string : ∀ v, stringOrNil vm (vm.rbModName v)
  singleton_class : ∀ v, vm.flSingleton v = true → vm.rbType v = .tClass
  /-- The class of an object, without its singleton classes. -/
  classReal_class : ∀ v, vm.flSingleton v = true →
    vm.rbType (vm.rbClassReal v) = .tClass ∧ vm.flSingleton (vm.rbClassReal v) = false
  /-- The singleton class of an instance of `Module` or `Class` is attached to it. -/
  attached_module : ∀ v, vm.flSingleton v = true →
    vm.rbClassReal v = vm.rbCModule ∨ vm.rbClassReal v = vm.rbCClass →
    classOrModule vm (vm.attached v)
  /-- An object is there before its singleton class. -/
  attached_wf : WellFounded fun x v => vm.flSingleton v = true ∧ x = vm.attached v
  refinement : ∀ v, isRefinement vm v →
    classOrModule vm (vm.refinedClass v) ∧ classOrModule vm (vm.definedAt v)
  /-- An object is not both an iseq and a method entry. -/
  iseq_or_methodEntry : ∀ v iseq, vm.iseqAt v = some iseq → vm.methodEntryAt v = none
  iseq : ∀ v iseq, vm.iseqAt v = some iseq → iseq.Lawful vm
  methodEntry : ∀ v cme, vm.methodEntryAt v = some cme → cme.Lawful vm

/-- The guarantees of MRI about a control frame. That of an ifunc has an `iseq` that is not 0 and a
`pc` that is 0, and is proper with any iseq in place of the ifunc (`ControlFrame.Proper`). -/
structure ControlFrame.Lawful (vm : VM) (frame : ControlFrame) : Prop
    extends ControlFrame.Proper vm frame where
  rubyframe_iseq : frame.rubyframeP = true → frame.iseq ≠ 0

/-- The frames of the stack are frames of MRI. -/
def ExecutionContext.Lawful (vm : VM) (ec : ExecutionContext) : Prop :=
  ∀ i, i < stackDepth ec → (ec.frameAt (ec.cfp + i)).Lawful vm

/-- A lawful VM has a graph of classes in which every class can be named. -/
theorem VM.Lawful.classGraph {vm : VM} (h : vm.Lawful) : vm.ClassGraph where
  class_rtest := h.class_rtest
  descends := h.descends
  basicObject_named := h.basicObject_named
  modName_string := h.modName_string
  module_class v hmodule := by
    have hclass : vm.rbType (vm.rbClassOf v) = .tClass :=
      h.classOf_class v (by rw [hmodule]; decide)
    exact ⟨vm.rbClassOf v, .step (by rw [hmodule]; decide) (.here hclass),
      h.module_class v hmodule⟩
  iclass_klass := h.iclass_klass
  singleton_class := h.singleton_class
  classReal_class := h.classReal_class
  attached_module := h.attached_module
  attached_wf := h.attached_wf
  refinement := h.refinement

theorem Descends.congr {vm vm' : VM} (htype : vm'.rbType = vm.rbType)
    (hsuper : vm'.rbClassSuperclass = vm.rbClassSuperclass)
    (hbasic : vm'.rbCBasicObject = vm.rbCBasicObject) {v : VALUE} (h : Descends vm v) :
    Descends vm' v := by
  induction h with
  | basicObject =>
    rw [← hbasic]
    exact .basicObject
  | step hne hclass _ ih =>
    refine .step (hbasic ▸ hne) ?_ ?_
    · rwa [htype, hsuper]
    · rwa [hsuper]

/-- The laws do not speak of what strings contain, nor of line numbers. -/
theorem VM.Lawful.withContents {vm : VM} (h : vm.Lawful) (strings : VALUE → RString)
    (lines : VALUE → ℕ → BitVec 32) :
    ({ vm with rstring := strings, rbIseqLineNo := lines } : VM).Lawful where
  class_rtest := h.class_rtest
  classOf_class := h.classOf_class
  iclass_klass := h.iclass_klass
  module_class := h.module_class
  descends v hv := by
    apply Descends.congr _ _ _ (h.descends v hv) <;> rfl
  basicObject_named := h.basicObject_named
  modName_string := h.modName_string
  singleton_class := h.singleton_class
  classReal_class := h.classReal_class
  attached_module := h.attached_module
  attached_wf := h.attached_wf
  refinement := h.refinement
  iseq_or_methodEntry := h.iseq_or_methodEntry
  iseq v iseq hv := by
    obtain ⟨label, baseLabel, pathobj⟩ := h.iseq v iseq hv
    exact ⟨label, baseLabel, pathobj⟩
  methodEntry v cme hv := by
    obtain ⟨calledId, originalId, definedClass⟩ := h.methodEntry v cme hv
    exact ⟨calledId, originalId, definedClass⟩

/-! ## A VM that obeys the laws -/

/-- A VM with the four classes every class hierarchy has, an object `main`, and two methods of
`Object`: `m`, written in Ruby, and `c`, a C function. All of its threads are `thread`. -/
def bootVM (thread : Thread) : VM where
  rbType v :=
    if v = 16 ∨ v = 24 ∨ v = 32 ∨ v = 40 then .tClass else if 100 ≤ v then .tString else .tOther
  rstring v :=
    { bytes :=
        if v = 116 then lit "BasicObject" else if v = 124 then lit "Object"
        else if v = 132 then lit "Module" else if v = 140 then lit "Class"
        else if v = 157 then lit "/m.rb" else if v = 202 then lit "c" else lit "m"
      encoding := 1 }
  rarrayAref _ _ := qnil
  rbClassOf v := if v = 16 ∨ v = 24 ∨ v = 32 ∨ v = 40 then 40 else 24
  rbasicKlass v := if v = 16 ∨ v = 24 ∨ v = 32 ∨ v = 40 then 40 else 24
  flSingleton _ := false
  rmoduleIsRefinement _ := false
  rbClassSuperclass v := if v = 24 then 16 else if v = 32 then 24 else if v = 40 then 32 else qnil
  rbClassReal v := v
  rbModName v := if v = 16 ∨ v = 24 ∨ v = 32 ∨ v = 40 then 100 + v else qnil
  attached _ := qnil
  refinedClass _ := qnil
  definedAt _ := qnil
  rbId2str id := 200 + id
  iseqAt v :=
    if v = 56 then
      some { type := .method, label := 156, baseLabel := 156, pathobj := 157, iseqEncoded := 10 }
    else none
  methodEntryAt v :=
    if v = 64 then some { calledId := 1, definedClass := 24, defType := .iseq, defOriginalId := 1 }
    else if v = 72 then
      some { calledId := 2, definedClass := 24, defType := .cfunc, defOriginalId := 2 }
    else none
  rbIseqLineNo _ pos := BitVec.ofNat 32 (pos + 1)
  rbProfileFrame _ v := v
  rbCModule := 32
  rbCClass := 40
  rbCBasicObject := 16
  rbMRubyVMFrozenCore := 88
  threadAt _ := thread
  rbThreadCurrent := 96

/-- The runtime of that VM, with the object `main` at 48. -/
def bootRuntime (thread : Thread) : Runtime := { toVM := bootVM thread, mainObjectInstance := 48 }

/-- A frame of the method `m`, called on `self`. -/
def rubyFrame (self : VALUE) : ControlFrame :=
  { pc := 11, iseq := 56, self := self, rubyframeP := true, vmFrameMethodEntry := 64 }

/-- A frame of the C function `c`, called on `self`. -/
def cFrame (self : VALUE) : ControlFrame :=
  { pc := 0, iseq := 0, self := self, rubyframeP := false, vmFrameMethodEntry := 72 }

/-- A frame that is neither. -/
def dummyFrame : ControlFrame :=
  { pc := 0, iseq := 0, self := 0, rubyframeP := false, vmFrameMethodEntry := 0 }

/-- The stack with the given frames. -/
def stackOf (frames : List ControlFrame) : ExecutionContext :=
  { cfp := 1
    endControlFrame := frames.length + 2
    frameAt := fun p => frames.getD (p - 1).toNat dummyFrame }

/-- A thread with that stack. -/
def bootThread (toKill : Bool) (frames : List ControlFrame) : Thread :=
  { toKill := toKill, status := .runnable, ec := stackOf frames }

section

variable (thread : Thread)

theorem bootVM_isClass {v : VALUE} (h : (bootVM thread).rbType v = .tClass) :
    v = 16 ∨ v = 24 ∨ v = 32 ∨ v = 40 := by
  by_contra hv
  simp only [bootVM, if_neg hv] at h
  split at h <;> cases h

theorem bootVM_descends : ∀ v, v = 16 ∨ v = 24 ∨ v = 32 ∨ v = 40 → Descends (bootVM thread) v := by
  have h16 : Descends (bootVM thread) 16 := .basicObject
  have h24 : Descends (bootVM thread) 24 := .step (show 24 ≠ 16 by decide) rfl h16
  have h32 : Descends (bootVM thread) 32 := .step (show 32 ≠ 16 by decide) rfl h24
  have h40 : Descends (bootVM thread) 40 := .step (show 40 ≠ 16 by decide) rfl h32
  rintro v (rfl | rfl | rfl | rfl)
  · exact h16
  · exact h24
  · exact h32
  · exact h40

theorem bootVM_lawful : (bootVM thread).Lawful where
  class_rtest v h := by
    rcases bootVM_isClass thread h with rfl | rfl | rfl | rfl <;> decide
  classOf_class v _ := by
    simp only [bootVM]
    split <;> rfl
  iclass_klass v h := by
    simp only [bootVM] at h
    split at h
    · cases h
    · split at h <;> cases h
  module_class v h := by
    simp only [bootVM] at h
    split at h
    · cases h
    · split at h <;> cases h
  descends v h := bootVM_descends thread v (bootVM_isClass thread h)
  basicObject_named := show rtest 116 by decide
  modName_string v h := by
    simp only [bootVM] at h ⊢
    split at h
    · next hv => rcases hv with rfl | rfl | rfl | rfl <;> rfl
    · exact absurd rfl h.2
  singleton_class v h := by cases h
  classReal_class v h := by cases h
  attached_module v h := by cases h
  attached_wf := ⟨fun v => ⟨v, fun x h => by cases h.1⟩⟩
  refinement v h := by cases h.2
  iseq_or_methodEntry v iseq h := by
    simp only [bootVM] at h
    split at h
    · next hv =>
      rw [hv]
      rfl
    · cases h
  iseq v iseq h := by
    simp only [bootVM] at h
    split at h
    · cases h
      exact ⟨rfl, rfl, .inl rfl⟩
    · cases h
  methodEntry v cme h := by
    simp only [bootVM] at h
    split at h
    · cases h
      exact ⟨rfl, rfl, .inl rfl⟩
    · split at h
      · cases h
        exact ⟨rfl, rfl, .inl rfl⟩
      · cases h

theorem rubyFrame_lawful (self : VALUE) : (rubyFrame self).Lawful (bootVM thread) where
  iseq := .inr ⟨show rtest 56 by decide, rfl⟩
  methodEntry := .inr ⟨show rtest 64 by decide, rfl⟩
  rubyframe_iseq _ := show 56 ≠ 0 by decide

theorem cFrame_lawful (self : VALUE) : (cFrame self).Lawful (bootVM thread) where
  iseq := .inl rfl
  methodEntry := .inr ⟨show rtest 72 by decide, rfl⟩
  rubyframe_iseq h := by cases h

theorem dummyFrame_lawful : dummyFrame.Lawful (bootVM thread) where
  iseq := .inl rfl
  methodEntry := .inl rfl
  rubyframe_iseq h := by cases h

theorem bootThread_alive (frames : List ControlFrame) :
    isThreadAlive (bootVM (bootThread false frames)) 96 := by
  rintro (h | h) <;> cases h

end

theorem stackDepth_stackOf (frames : List ControlFrame) :
    stackDepth (stackOf frames) = frames.length := by
  have hcfp : (stackOf frames).cfp ≠ 0 := show (1 : ℤ) ≠ 0 by decide
  rw [stackDepth, if_neg hcfp]
  simp only [stackOf]
  omega

theorem frameAt_stackOf {frames : List ControlFrame} {i : ℕ} (hi : i < frames.length) :
    (stackOf frames).frameAt ((stackOf frames).cfp + i) = frames[i] := by
  have hindex : ((1 : ℤ) + i - 1).toNat = i := by omega
  show frames.getD ((1 : ℤ) + i - 1).toNat dummyFrame = frames[i]
  rw [hindex, List.getD_eq_getElem?_getD, List.getElem?_eq_getElem hi, Option.getD_some]

theorem stackOf_lawful {vm : VM} {frames : List ControlFrame}
    (h : ∀ frame ∈ frames, frame.Lawful vm) : (stackOf frames).Lawful vm := by
  intro i hi
  rw [stackDepth_stackOf] at hi
  rw [frameAt_stackOf hi]
  exact h _ (List.getElem_mem hi)

end Backtracie
