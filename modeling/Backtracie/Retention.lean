import Backtracie.Survival
import Backtracie.WrapperInvariant
import Backtracie.Profile

/-!
# Frames that are kept

A profiler captures frames now and asks for their names later. In between the methods return, the
heap is collected and compacted. What it has to do for that is in `backtracie.h`: with a frame
wrapper nothing, as the callbacks of the wrapper do it; with minimal records, mark and update the
words of each record that are said to hold objects.

* `retained_answers`: with a wrapper, each question about a captured frame is answered as it would
  have been when the frame was captured, in every state of every run;
* `profiled_answers`: so is each question about a minimal record, although the iseq and the method
  entry of the frame may be gone.
-/

namespace Backtracie

open CMem Traced

/-! ## The answers about a frame -/

/-- The answers to all questions about a captured frame: its kind, its position in the code, what
the queries write, its line, and what is selected for `rb_profile_frames`. -/
structure FrameAnswers where
  isRubyFrame : Bool
  selfIsRealSelf : Bool
  pc : ℕ
  name : ℕ → MinimalLocation → Emit Unit
  filename : Bool → Emit Bool
  label : Bool → Emit Bool
  lineNumber : Except Fault (BitVec 32)
  /-- Whether it is the iseq of the frame, and not `nil`. -/
  profile : Except Fault Bool

/-- The answers about a location, in a state of the VM. -/
def frameAnswers (rt : Runtime) (loc : RawLocation) : FrameAnswers :=
  { isRubyFrame := loc.isRubyFrame
    selfIsRealSelf := loc.selfIsRealSelf
    pc := loc.pc
    name := fun depth before => frameName rt depth before loc
    filename := frameFilename rt.toVM loc
    label := frameLabel rt.toVM loc
    lineNumber := frameLineNumber rt loc
    profile := (frameForRbProfile rt loc).map fun frame => decide (frame ≠ qnil) }

/-- Where nothing is moved of what a location refers to, the answers stay. -/
theorem frameAnswers_survive {rt : Runtime} {vm : VM} {roots : List VALUE} {loc : RawLocation}
    (h : rt.toVM.Survives roots vm) (hloc : ∀ v ∈ loc.references, v ∈ roots) :
    frameAnswers (rt.withVM vm) loc = frameAnswers rt loc := by
  have hreached : ∀ v ∈ loc.references, rt.toVM.Reached roots v := fun v hv => .of_mem (hloc v hv)
  unfold frameAnswers
  rw [frameLineNumber_survives h hreached, frameForRbProfile_survives h hreached]
  congr 1
  · funext depth before
    exact frameName_survives h hreached depth before
  · funext absolute
    exact frameFilename_survives h hreached absolute
  · funext base
    exact frameLabel_survives h hreached base

theorem withVM_relocate {rt : Runtime} {σ : Relocation}
    (hmain : σ rt.mainObjectInstance = rt.mainObjectInstance) :
    rt.withVM (rt.toVM.relocate σ) = rt.relocate σ := by
  unfold Runtime.withVM Runtime.relocate
  rw [hmain]

/-- What is selected for `rb_profile_frames`, with any iseq. -/
theorem frameForRbProfile_eq_derefIseq (rt : Runtime) (loc : RawLocation) :
    frameForRbProfile rt loc =
      if rtest loc.iseq then (rt.derefIseq loc.iseq).map fun _ => loc.iseq else .ok qnil := by
  by_cases htest : rtest loc.iseq
  · rw [if_pos htest]
    rcases hiseq : rt.iseqAt loc.iseq with _ | iseq
    · have hne : loc.iseq ≠ 0 := htest.1
      unfold frameForRbProfile iseqIsEval VM.derefIseq
      simp only [if_pos htest, if_neg hne, hiseq]
      rfl
    · rw [frameForRbProfile_of_iseq htest hiseq, VM.derefIseq_of_some hiseq]
      rfl
  · rw [if_neg htest, frameForRbProfile_of_no_iseq htest]

/-- The answers tell what is selected: the iseq, where it is now, or `nil`. -/
theorem frameForRbProfile_eq_profile (rt : Runtime) (loc : RawLocation) :
    frameForRbProfile rt loc =
      (frameAnswers rt loc).profile.map fun selected => if selected then loc.iseq else qnil := by
  unfold frameAnswers
  dsimp only
  rw [frameForRbProfile_eq_derefIseq]
  split
  · next htest =>
    have hne : loc.iseq ≠ qnil := htest.2
    cases rt.toVM.derefIseq loc.iseq with
    | error e => rfl
    | ok iseq => simp [Except.map, hne]
  · rfl

/-- The code object that is selected is moved with the others. -/
theorem frameForRbProfile_relocate (σ : Relocation) (rt : Runtime) (loc : RawLocation) :
    frameForRbProfile (rt.relocate σ) (frameCompact σ loc) = (frameForRbProfile rt loc).map σ := by
  simp only [frameForRbProfile_eq_derefIseq, frameCompact, Relocation.rtest_apply,
    Runtime.relocate_toVM, relocate_derefIseq]
  split
  · cases rt.toVM.derefIseq loc.iseq <;> rfl
  · exact congrArg Except.ok σ.map_qnil.symm

/-- Nor do they change when the location is updated after a move. -/
theorem frameAnswers_compact {rt : Runtime} {σ : Relocation}
    (hmain : σ rt.mainObjectInstance = rt.mainObjectInstance) (loc : RawLocation) :
    frameAnswers (rt.withVM (rt.toVM.relocate σ)) (frameCompact σ loc) = frameAnswers rt loc := by
  rw [withVM_relocate hmain]
  unfold frameAnswers
  rw [frameForRbProfile_relocate]
  congr 1
  · funext depth before
    exact frameName_relocate σ rt loc before depth
  · funext absolute
    exact frameFilename_relocate σ rt.toVM loc absolute
  · funext base
    exact frameLabel_relocate σ rt.toVM loc base
  · exact calcLineno_relocate σ rt loc.iseq loc.pc
  · cases frameForRbProfile rt loc with
    | error e => rfl
    | ok frame =>
      refine congrArg Except.ok (decide_eq_decide.2 (not_congr ?_))
      show σ frame = qnil ↔ frame = qnil
      rw [← σ.apply_inj (v := frame) (w := qnil), σ.map_qnil]

/-! ## The garbage collector -/

/-- A reference that is visited is one of those that are marked. -/
theorem mem_of_markMovable {v : VALUE} {roots : List VALUE}
    (h : .markMovable v ∈ roots.map Visit.markMovable) : v ∈ roots := by
  obtain ⟨w, hw, heq⟩ := List.mem_map.1 h
  cases heq
  exact hw

/-- A frame wrapper and the VM. -/
structure Wrapped where
  rt : Runtime
  wrapper : FrameWrapper

/-- What the garbage collector does, with a frame wrapper among what it marks. -/
inductive GcStep : Wrapped → Wrapped → Prop
  /-- The program runs on and the heap is collected: of what there was before, only that is left
  which is reached from what the wrapper marks. -/
  | collect {s : Wrapped} {visits : List Visit}
    (hmark : (frameWrapperMark s.wrapper).Yields visits ()) {roots : List VALUE}
    (hroots : ∀ v, .markMovable v ∈ visits → v ∈ roots) {vm : VM}
    (hsurvives : s.rt.toVM.Survives roots vm) :
    GcStep s { s with rt := s.rt.withVM vm }
  /-- The heap is compacted, and the main object stays where it is. -/
  | compact {s : Wrapped} (σ : Relocation)
    (hmain : σ s.rt.mainObjectInstance = s.rt.mainObjectInstance) {wrapper : FrameWrapper}
    (hcompact : (frameWrapperCompact σ s.wrapper).Yields [] wrapper) :
    GcStep s { rt := s.rt.withVM (s.rt.toVM.relocate σ), wrapper := wrapper }

/-- The wrappers have as many slots, as many of them in use, and these have the same answers. -/
structure SameAnswers (s t : Wrapped) : Prop where
  length : t.wrapper.frames.length = s.wrapper.frames.length
  len : t.wrapper.len = s.wrapper.len
  same : ∀ (j : ℕ) (loc loc' : RawLocation), j < s.wrapper.len →
    s.wrapper.frames[j]? = some loc → t.wrapper.frames[j]? = some loc' →
      frameAnswers t.rt loc' = frameAnswers s.rt loc

section

variable {s t u : Wrapped}

theorem SameAnswers.refl (s : Wrapped) : SameAnswers s s where
  length := rfl
  len := rfl
  same j loc loc' _ h h' := by rw [Option.some.inj (h.symm.trans h')]

theorem SameAnswers.trans (h : SameAnswers s t) (h' : SameAnswers t u) : SameAnswers s u where
  length := h'.length.trans h.length
  len := h'.len.trans h.len
  same j loc loc'' hj hloc hloc'' := by
    have hlt : j < t.wrapper.frames.length :=
      h.length ▸ (List.getElem?_eq_some_iff.1 hloc).1
    have hget := List.getElem?_eq_getElem hlt
    rw [h'.same j _ loc'' (h.len ▸ hj) hget hloc'', h.same j loc _ hj hloc hget]

/-- **The garbage collector** does not change the answers. -/
theorem GcStep.sameAnswers (hstep : GcStep s t) (hroom : s.wrapper.len ≤ s.wrapper.frames.length) :
    SameAnswers s t := by
  cases hstep with
  | collect hmark hroots hsurvives =>
    refine ⟨rfl, rfl, fun j loc loc' hj hloc hloc' => ?_⟩
    obtain rfl := Option.some.inj (hloc.symm.trans hloc')
    rw [← hmark.trace, (frameWrapperMark_yields hroom).trace] at hroots
    exact frameAnswers_survive hsurvives fun v hv => hroots v (mem_references hj hloc hv)
  | @compact σ hmain wrapper hcompact =>
    have hyields := frameWrapperCompact_yields σ hroom
    obtain rfl : wrapper = s.wrapper.compacted σ s.wrapper.len :=
      Except.ok.inj (hcompact.result.symm.trans hyields.result)
    refine ⟨length_compacted, rfl, fun j loc loc' hj hloc hloc' => ?_⟩
    rw [compacted_getElem? hroom hj hloc] at hloc'
    obtain rfl := Option.some.inj hloc'
    exact frameAnswers_compact hmain loc

/-- Nor do its runs. -/
theorem gcRun_sameAnswers (hrun : Relation.ReflTransGen GcStep s t)
    (hroom : s.wrapper.len ≤ s.wrapper.frames.length) : SameAnswers s t := by
  induction hrun with
  | refl => exact SameAnswers.refl s
  | tail _ hstep ih =>
    apply ih.trans
    apply hstep.sameAnswers
    rw [ih.len, ih.length]
    exact hroom

end

/-! ## Frames in a wrapper -/

/-- A frame wrapper and the VM, with the answers about each frame at the time it was captured. -/
structure Retained extends Wrapped where
  answers : List FrameAnswers

/-- A new wrapper. -/
def Retained.start (rt : Runtime) (count : ℕ) : Retained :=
  { rt := rt, wrapper := frameWrapperNew count, answers := [] }

/-- What happens while the frames are kept. -/
inductive RetainStep : Retained → Retained → Prop
  /-- A frame is captured behind those in the wrapper. -/
  | capture {s : Retained} {thread : VALUE} {i : ℕ} {slot loc : RawLocation}
    (hslot : frameAt s.wrapper.frames s.wrapper.len = .ok slot)
    (hcapture : captureFrameForThread s.rt thread i slot = .ok (true, loc)) :
    RetainStep s { s with
      wrapper := (s.wrapper.setSlot s.wrapper.len loc).setLen (s.wrapper.len + 1)
      answers := s.answers ++ [frameAnswers s.rt loc] }
  | gc {s : Retained} {t : Wrapped} (h : GcStep s.toWrapped t) :
    RetainStep s { s with toWrapped := t }

/-- The questions about the frames in the wrapper have the answers they had. -/
structure RetainInv (s : Retained) : Prop where
  room : s.wrapper.len ≤ s.wrapper.frames.length
  answers : s.answers.length = s.wrapper.len
  kept : ∀ (j : ℕ) (loc : RawLocation) (a : FrameAnswers), s.wrapper.frames[j]? = some loc →
    s.answers[j]? = some a → frameAnswers s.rt loc = a

section

variable {s s' : Retained}

theorem retainInv_start (rt : Runtime) (count : ℕ) : RetainInv (Retained.start rt count) where
  room := Nat.zero_le _
  answers := rfl
  kept j loc a _ h := by cases h

/-- A location is stored behind those in the wrapper. -/
theorem RetainInv.store (h : RetainInv s) {slot : RawLocation}
    (hslot : frameAt s.wrapper.frames s.wrapper.len = .ok slot) (loc : RawLocation) :
    RetainInv { s with
      wrapper := (s.wrapper.setSlot s.wrapper.len loc).setLen (s.wrapper.len + 1)
      answers := s.answers ++ [frameAnswers s.rt loc] } := by
  have hlt : s.wrapper.len < s.wrapper.frames.length :=
    (List.getElem?_eq_some_iff.1 (getElem?_of_frameAt hslot)).1
  refine ⟨?_, ?_, fun j loc' a hloc' ha => ?_⟩
  · show s.wrapper.len + 1 ≤ (s.wrapper.frames.set _ _).length
    rw [List.length_set]
    exact hlt
  · rw [List.length_append, h.answers]
    rfl
  · change (s.wrapper.frames.set s.wrapper.len loc)[j]? = some loc' at hloc'
    change (s.answers ++ [frameAnswers s.rt loc])[j]? = some a at ha
    rcases Nat.lt_trichotomy j s.wrapper.len with hj | rfl | hj
    · rw [List.getElem?_set_ne (Nat.ne_of_gt hj)] at hloc'
      rw [List.getElem?_append_left (h.answers ▸ hj)] at ha
      exact h.kept j loc' a hloc' ha
    · rw [List.getElem?_set_self hlt] at hloc'
      rw [← h.answers, List.getElem?_concat_length] at ha
      cases hloc'
      exact Option.some.inj ha
    · rw [List.getElem?_eq_none (by
        rw [List.length_append, h.answers]
        exact hj)] at ha
      cases ha

/-- The garbage collector keeps the frames and the answers together. -/
theorem RetainInv.gc (h : RetainInv s) {t : Wrapped} (hsame : SameAnswers s.toWrapped t) :
    RetainInv { s with toWrapped := t } := by
  refine ⟨?_, h.answers.trans hsame.len.symm, fun j loc' a hloc' ha => ?_⟩
  · show t.wrapper.len ≤ t.wrapper.frames.length
    rw [hsame.len, hsame.length]
    exact h.room
  · have hj : j < s.wrapper.len := h.answers ▸ (List.getElem?_eq_some_iff.1 ha).1
    obtain ⟨loc, hloc⟩ : ∃ loc, s.wrapper.frames[j]? = some loc :=
      ⟨_, List.getElem?_eq_getElem (hj.trans_le h.room)⟩
    rw [← h.kept j loc a hloc ha]
    exact hsame.same j loc loc' hj hloc hloc'

theorem RetainStep.inv (hstep : RetainStep s s') (h : RetainInv s) : RetainInv s' := by
  cases hstep with
  | capture hslot _ => exact h.store hslot _
  | gc hgc => exact h.gc (hgc.sameAnswers h.room)

end

/-- **A frame wrapper marks enough.** In every state of every run of captures, collections that
leave only what is reached from the marks of the wrapper, and compactions that do not move the main
object, each question about each frame in the wrapper has the answer it had when the frame was
captured. So has the selection for `rb_profile_frames`: the iseq of the frame, wherever it is now,
if it was the iseq, and `nil` if it was `nil`. -/
theorem retained_answers (rt : Runtime) (count : ℕ) (s : Retained)
    (hrun : Relation.ReflTransGen RetainStep (Retained.start rt count) s) :
    s.answers.length = s.wrapper.len ∧
    ∀ (j : ℕ) (loc : RawLocation) (a : FrameAnswers), s.wrapper.frames[j]? = some loc →
      s.answers[j]? = some a →
      frameAnswers s.rt loc = a ∧
      frameForRbProfile s.rt loc =
        a.profile.map fun selected => if selected then loc.iseq else qnil := by
  have h : RetainInv s := by
    induction hrun with
    | refl => exact retainInv_start rt count
    | tail _ hstep ih => exact hstep.inv ih
  refine ⟨h.answers, fun j loc a hloc ha => ?_⟩
  have hkept := h.kept j loc a hloc ha
  rw [← hkept]
  exact ⟨rfl, frameForRbProfile_eq_profile s.rt loc⟩

/-- The VM after the C function `c` was freed, with the stack of the thread gone. -/
def sweptVM : VM :=
  { bootVM (bootThread false []) with
    methodEntryAt := fun v =>
      if v = 72 then none else (bootVM (bootThread false [])).methodEntryAt v }

/-- What is not the method entry of `c` does not refer to it. -/
theorem bootVM_closed {thread : Thread} {v w : VALUE} (hv : v ≠ 72)
    (h : (bootVM thread).RefersTo v w) : w ≠ 72 := by
  cases h with
  | classOf | klass =>
    simp only [bootVM]
    split <;> decide
  | superclass =>
    simp only [bootVM]
    split
    · decide
    · split
      · decide
      · split <;> decide
  | classReal => exact hv
  | modName =>
    simp only [bootVM]
    split
    · next hclass => rcases hclass with rfl | rfl | rfl | rfl <;> decide
    · decide
  | attached | refinedClass | definedAt | element => exact show qnil ≠ 72 by decide
  | label hiseq | baseLabel hiseq | pathobj hiseq =>
    simp only [bootVM] at hiseq
    split at hiseq
    · cases hiseq
      decide
    · cases hiseq
  | definedClass hcme =>
    simp only [bootVM] at hcme
    split at hcme
    · cases hcme
      decide
    · cases hcme

/-- Without a reference to it, the method entry of `c` is not reached. -/
theorem bootVM_not_reached {thread : Thread} {roots : List VALUE} (h : 72 ∉ roots) :
    ¬(bootVM thread).Reached roots 72 := by
  intro hreached
  refine Reaches.of_closed (p := fun v => v ≠ 72) ?_ (fun a b ha hab => bootVM_closed ha hab)
    hreached rfl
  rintro r (hr | rfl | ⟨id, rfl⟩)
  · rintro rfl
    exact h hr
  · decide
  · have hid : 72 < 200 + id := Nat.lt_of_lt_of_le (by decide) (Nat.le_add_right 200 id)
    exact hid.ne'

/-- So it may go. -/
theorem bootVM_survives {roots : List VALUE} (h : 72 ∉ roots) :
    (bootVM (bootThread false [rubyFrame 48])).Survives roots sweptVM where
  object v _ := ⟨rfl, rfl, rfl, rfl, rfl, rfl, rfl, rfl, rfl, rfl, rfl, rfl, rfl⟩
  rbId2str := rfl
  rbCModule := rfl
  rbCClass := rfl
  rbMRubyVMFrozenCore := rfl
  code v hv := by
    have hne : v ≠ 72 := by
      rintro rfl
      exact bootVM_not_reached h hv
    exact ⟨rfl, if_neg hne, rfl⟩

/-- A wrapper with a frame of the method `m`, called on the main object. -/
def retainedFrame : Retained :=
  { rt := bootRuntime (bootThread false [rubyFrame 48])
    wrapper := ((frameWrapperNew 2).setSlot 0
      (locationOfFrame (bootRuntime (bootThread false [rubyFrame 48])) (rubyFrame 48))).setLen 1
    answers := [frameAnswers (bootRuntime (bootThread false [rubyFrame 48]))
      (locationOfFrame (bootRuntime (bootThread false [rubyFrame 48])) (rubyFrame 48))] }

/-- The name of a method that has returned, in a heap from which everything else is gone, and its
iseq, which is still selected. -/
theorem retained_answers_swept :
    (frameAnswers (bootRuntime (bootThread false [rubyFrame 48]) |>.withVM sweptVM)
        (locationOfFrame (bootRuntime (bootThread false [rubyFrame 48])) (rubyFrame 48))).name 1
      MinimalLocation.zeroed =
        ⟨[.append (lit "Object$<main>#"), .appendValue (some (lit "m"))], .ok ()⟩ ∧
    frameForRbProfile (bootRuntime (bootThread false [rubyFrame 48]) |>.withVM sweptVM)
        (locationOfFrame (bootRuntime (bootThread false [rubyFrame 48])) (rubyFrame 48)) =
      .ok 56 := by
  have hcapture : RetainStep (.start (bootRuntime (bootThread false [rubyFrame 48])) 2)
      retainedFrame :=
    @RetainStep.capture (.start (bootRuntime (bootThread false [rubyFrame 48])) 2) 96 0 _ _ rfl rfl
  have hmark : (frameWrapperMark retainedFrame.wrapper).Yields
      ([56, 64, 48].map .markMovable) () := frameWrapperMark_yields le_add_self
  have hcollect : RetainStep retainedFrame
      { retainedFrame with rt := retainedFrame.rt.withVM sweptVM } :=
    .gc (.collect hmark (fun _ hv => mem_of_markMovable hv) (bootVM_survives (by decide)))
  have hkept := (retained_answers _ 2 _ ((Relation.ReflTransGen.single hcapture).tail hcollect)).2
  obtain ⟨hanswers, hprofile⟩ := hkept 0 _ _ rfl rfl
  exact ⟨congrArg (fun a => a.name 1 MinimalLocation.zeroed) hanswers, hprofile⟩

/-! ## Minimal records -/

/-- The answers to all questions about a minimal record. -/
structure MinimalAnswers where
  name : ℕ → Emit Unit
  filename : Emit Unit
  lineNumber : BitVec 32

/-- The answers about a record, in a state of the VM. -/
def minimalAnswers (rt : Runtime) (minLoc : MinimalLocation) : MinimalAnswers :=
  { name := fun depth => minimalLocationName rt depth minLoc
    filename := minimalFrameFilename rt minLoc
    lineNumber := minLoc.lineNumber }

/-- A record whose owner has updated the words that `backtracie.h` says to mark. -/
def MinimalLocation.compacted (σ : Relocation) (minLoc : MinimalLocation) : MinimalLocation :=
  { minLoc.moved σ with filename := σ minLoc.filename }

/-- Minimal records and the VM, with the answers about each of them at the time it was captured. -/
structure Profiled where
  rt : Runtime
  records : List MinimalLocation
  answers : List MinimalAnswers

/-- What happens while the records are kept. -/
inductive ProfileStep : Profiled → Profiled → Prop
  /-- A frame is captured, into a record and through a raw location that may hold anything. -/
  | capture {s : Profiled} {thread : VALUE} {i : ℕ} {rawLoc : RawLocation}
    {before minLoc : MinimalLocation}
    (hcapture : captureMinimalFrameForThread s.rt rawLoc thread i before = .ok (true, minLoc)) :
    ProfileStep s { s with
      records := s.records ++ [minLoc], answers := s.answers ++ [minimalAnswers s.rt minLoc] }
  /-- The program runs on and the heap is collected: of the objects there were before, only those
  are left that are reached from what the header says to mark. -/
  | collect {s : Profiled} {roots : List VALUE}
    (hroots : ∀ minLoc ∈ s.records, ∀ v ∈ minLoc.references, v ∈ roots) {vm : VM}
    (hsurvives : s.rt.toVM.ObjectsSurvive roots vm) :
    ProfileStep s { s with rt := s.rt.withVM vm }
  /-- The heap is compacted, and the main object stays where it is. -/
  | compact {s : Profiled} (σ : Relocation)
    (hmain : σ s.rt.mainObjectInstance = s.rt.mainObjectInstance) :
    ProfileStep s { s with
      rt := s.rt.withVM (s.rt.toVM.relocate σ)
      records := s.records.map (MinimalLocation.compacted σ) }

section

variable {s s' : Profiled} {rt : Runtime} {minLoc : MinimalLocation}

theorem minimalAnswers_survive {vm : VM} {roots : List VALUE}
    (h : rt.toVM.ObjectsSurvive roots vm) (hroots : ∀ v ∈ minLoc.references, v ∈ roots) :
    minimalAnswers (rt.withVM vm) minLoc = minimalAnswers rt minLoc := by
  have hfilename : rt.toVM.Reached roots minLoc.filename :=
    .of_mem (hroots _ (by unfold MinimalLocation.references; split <;> simp))
  have hqualifier : rt.toVM.Reached roots minLoc.methodQualifier :=
    .of_mem (hroots _ (by unfold MinimalLocation.references; split <;> simp))
  have hname : minLoc.methodNameContents ≠ methodNameContentsCmeId →
      rt.toVM.Reached roots minLoc.methodName := by
    intro hne
    apply VM.Reached.of_mem (hroots _ _)
    rw [MinimalLocation.references, if_neg hne]
    simp
  unfold minimalAnswers
  rw [minimalFrameFilename_survives h hfilename]
  congr 1
  funext depth
  exact minimalLocationName_survives h depth hqualifier hname

theorem minimalAnswers_compact {σ : Relocation}
    (hmain : σ rt.mainObjectInstance = rt.mainObjectInstance) :
    minimalAnswers (rt.withVM (rt.toVM.relocate σ)) (minLoc.compacted σ) =
      minimalAnswers rt minLoc := by
  rw [withVM_relocate hmain]
  unfold minimalAnswers
  congr 1
  · funext depth
    -- a name does not depend on the filename
    show (minimalLocationMethodQualifier (rt.relocate σ) depth (minLoc.moved σ) >>= fun _ =>
      minimalLocationMethodName (rt.relocate σ) (minLoc.moved σ)) = _
    rw [methodQualifier_relocate, methodName_relocate]
    rfl
  · unfold minimalFrameFilename MinimalLocation.compacted
    simp only [Relocation.rtest_apply, Runtime.relocate_toVM, appendValue_relocate]

/-- Each record has the answers it had. -/
def ProfileInv (s : Profiled) : Prop := s.records.map (minimalAnswers s.rt) = s.answers

theorem ProfileStep.inv (hstep : ProfileStep s s') (h : ProfileInv s) : ProfileInv s' := by
  unfold ProfileInv at h ⊢
  cases hstep with
  | capture hcapture => rw [List.map_append, h, List.map_singleton]
  | collect hroots hsurvives =>
    rw [← h]
    apply List.map_congr_left
    intro minLoc hmem
    exact minimalAnswers_survive hsurvives (hroots minLoc hmem)
  | compact σ hmain =>
    rw [← h, List.map_map]
    apply List.map_congr_left
    intro minLoc _
    exact minimalAnswers_compact hmain

end

/-- **What the header says to mark of a minimal record is enough.** In every state of every run of
captures, collections that leave only the objects that are reached from the words to be marked, and
compactions that do not move the main object, each question about each record has the answer it had
when the frame was captured. Nothing is asked of the iseqs and method entries: they need not be left
at all. -/
theorem profiled_answers (rt : Runtime) (s : Profiled)
    (hrun : Relation.ReflTransGen ProfileStep { rt := rt, records := [], answers := [] } s) :
    s.records.map (minimalAnswers s.rt) = s.answers := by
  have h : ProfileInv s := by
    induction hrun with
    | refl => exact List.map_nil
    | tail _ hstep ih => exact hstep.inv ih
  exact h

/-- The VM without any iseq or method entry, with the stack of the thread gone. -/
def codelessVM : VM :=
  { bootVM (bootThread false []) with iseqAt := fun _ => none, methodEntryAt := fun _ => none }

/-- The minimal record of the method `m`, called on the main object. -/
def minimalRecord : MinimalLocation :=
  { MinimalLocation.zeroed with
    isRubyFrame := true, methodNameContents := methodNameContentsCmeId, methodName := 1
    hasIseqType := true, iseqType := 1, lineNumber := 1
    methodQualifierContents := methodQualifierContentsSelf, methodQualifier := 48 }

/-- The record of a method, captured while it ran. -/
def profiledRecord : Profiled :=
  { rt := bootRuntime (bootThread false [rubyFrame 48]), records := [minimalRecord]
    answers := [minimalAnswers (bootRuntime (bootThread false [rubyFrame 48])) minimalRecord] }

/-- The name of a method whose code is gone. -/
theorem profiled_answers_codeless :
    minimalLocationName (profiledRecord.rt.withVM codelessVM) 1 minimalRecord =
      ⟨[.append (lit "Object$<main>#"), .appendValue (some (lit "m"))], .ok ()⟩ := by
  have hcapture : ProfileStep { rt := profiledRecord.rt, records := [], answers := [] }
      profiledRecord :=
    @ProfileStep.capture { rt := profiledRecord.rt, records := [], answers := [] } 96 0
      RawLocation.zeroed MinimalLocation.zeroed minimalRecord rfl
  have hsurvive : profiledRecord.rt.toVM.ObjectsSurvive [0, 48] codelessVM :=
    ⟨fun v _ => ⟨rfl, rfl, rfl, rfl, rfl, rfl, rfl, rfl, rfl, rfl, rfl, rfl, rfl⟩, rfl, rfl, rfl,
      rfl⟩
  have hroots : ∀ minLoc ∈ profiledRecord.records, ∀ v ∈ minLoc.references, v ∈ [0, 48] := by
    intro minLoc hmem v hv
    rw [List.mem_singleton.1 hmem] at hv
    exact hv
  have hcollect : ProfileStep profiledRecord
      { profiledRecord with rt := profiledRecord.rt.withVM codelessVM } :=
    .collect hroots hsurvive
  have hkept := profiled_answers _ _ ((Relation.ReflTransGen.single hcapture).tail hcollect)
  exact congrArg (fun a => a.name 1) (List.cons.inj hkept).1

end Backtracie
