import Backtracie.Lawful
import Backtracie.Wrapper
import Mathlib.Logic.Relation

/-!
# A frame wrapper under garbage collection

The life of a frame wrapper, in steps between which the garbage collector can run: it is built,
frames are captured into the slot behind the last one, and in between the callbacks are run. What
lives at an address is a function of the address (`objectAt`), which a collection may change for
every object that was not marked, and a compaction for every object that it moves.

* `WrapperStep.inv`: one step keeps the invariant `WrappingInv`, one lemma for each kind of step;
* `wrapper_invariant`: every state of every run has it; so each slot below the length denotes the
  objects it denoted when it was captured.
-/

namespace Backtracie

open CMem Traced

/-- A raw location, with objects in place of references. -/
structure Denoted (O : Type) where
  isRubyFrame : Bool
  selfIsRealSelf : Bool
  iseq : O
  callableMethodEntry : O
  selfOrSelfClass : O
  pc : ℕ

/-- What a raw location denotes, with the objects where they are. -/
def RawLocation.denote {O : Type} (objectAt : VALUE → O) (loc : RawLocation) : Denoted O :=
  { isRubyFrame := loc.isRubyFrame
    selfIsRealSelf := loc.selfIsRealSelf
    iseq := objectAt loc.iseq
    callableMethodEntry := objectAt loc.callableMethodEntry
    selfOrSelfClass := objectAt loc.selfOrSelfClass
    pc := loc.pc }

/-- What is to be kept of a control frame: all fields of a raw location. -/
def ControlFrame.denote {O : Type} (rt : Runtime) (objectAt : VALUE → O) (frame : ControlFrame) :
    Denoted O :=
  { isRubyFrame := frame.rubyframeP
    selfIsRealSelf := decide (keepsSelf rt frame.self)
    iseq := objectAt frame.iseq
    callableMethodEntry := objectAt frame.vmFrameMethodEntry
    selfOrSelfClass :=
      objectAt (if keepsSelf rt frame.self then frame.self else rt.rbClassOf frame.self)
    pc := frame.pc }

/-- Frame `i` of a thread. -/
def threadFrame (vm : VM) (thread : VALUE) (i : ℕ) : ControlFrame :=
  (vm.threadAt thread).ec.frameAt ((vm.threadAt thread).ec.cfp + i)

/-- How far the owner of the wrapper has got. -/
inductive Phase
  /-- The structure is made. -/
  | made
  /-- Its capacity is set. -/
  | sized
  /-- Its length is set; the array is about to be allocated. -/
  | emptied
  /-- The wrapper is built, and its slots below the length are in use. -/
  | ready
  /-- A frame was captured into the slot behind them, which does not count yet. -/
  | captured
  deriving DecidableEq

/-- The slots in use that the length does not count. -/
def Phase.pending : Phase → ℕ
  | .captured => 1
  | _ => 0

/-- The wrapper has its array. -/
def Phase.isBuilt : Phase → Bool
  | .ready => true
  | .captured => true
  | _ => false

/-- A wrapper, made for `count` frames, in a heap. -/
structure Wrapping (O : Type) where
  objectAt : VALUE → O
  count : ℕ
  wrapper : FrameWrapper
  phase : Phase
  /-- What the captured frames denoted when they were captured. -/
  taken : List (Denoted O)

/-- A wrapper that was just made. -/
def Wrapping.made {O : Type} (objectAt : VALUE → O) (count : ℕ) : Wrapping O :=
  { objectAt := objectAt, count := count, wrapper := frameWrapperMade, phase := .made, taken := [] }

/-- A step. The callbacks are not run in the phase `captured`: nothing is allocated between the
capture of a frame and the assignment to the length. -/
inductive WrapperStep {O : Type} : Wrapping O → Wrapping O → Prop
  | setCapa {s : Wrapping O} (hphase : s.phase = .made) :
    WrapperStep s { s with wrapper := s.wrapper.setCapa s.count, phase := .sized }
  | setLen {s : Wrapping O} (hphase : s.phase = .sized) :
    WrapperStep s { s with wrapper := s.wrapper.setLen 0, phase := .emptied }
  | setFrames {s : Wrapping O} (hphase : s.phase = .emptied) :
    WrapperStep s { s with wrapper := s.wrapper.setFrames s.count, phase := .ready }
  /-- A capture that returns `true`. -/
  | capture {s : Wrapping O} (hphase : s.phase = .ready) (hroom : s.wrapper.len < s.wrapper.capa)
    {rt : Runtime} {thread : VALUE} {i : ℕ} {slot loc : RawLocation}
    (hslot : frameAt s.wrapper.frames s.wrapper.len = .ok slot)
    (hcapture : captureFrameForThread rt thread i slot = .ok (true, loc)) :
    WrapperStep s { s with
      wrapper := s.wrapper.setSlot s.wrapper.len loc
      phase := .captured
      taken := s.taken ++ [(threadFrame rt.toVM thread i).denote rt s.objectAt] }
  /-- A capture that returns `false`. -/
  | captureFailed {s : Wrapping O} (hphase : s.phase = .ready)
    (hroom : s.wrapper.len < s.wrapper.capa)
    {rt : Runtime} {thread : VALUE} {i : ℕ} {slot loc : RawLocation}
    (hslot : frameAt s.wrapper.frames s.wrapper.len = .ok slot)
    (hcapture : captureFrameForThread rt thread i slot = .ok (false, loc)) :
    WrapperStep s { s with wrapper := s.wrapper.setSlot s.wrapper.len loc }
  /-- The length counts the captured frame. -/
  | count {s : Wrapping O} (hphase : s.phase = .captured) :
    WrapperStep s { s with wrapper := s.wrapper.setLen (s.wrapper.len + 1), phase := .ready }
  /-- A collection: what was marked stays, anything may be at the other addresses. -/
  | mark {s : Wrapping O} (hphase : s.phase ≠ .captured) {visits : List Visit}
    (hmark : (frameWrapperMark s.wrapper).Yields visits ()) (objectAt : VALUE → O)
    (hkept : ∀ v, .markMovable v ∈ visits → objectAt v = s.objectAt v) :
    WrapperStep s { s with objectAt := objectAt }
  /-- A compaction: what was marked moves, and the wrapper is told where to. -/
  | compact {s : Wrapping O} (hphase : s.phase ≠ .captured) {visits : List Visit}
    (hmark : (frameWrapperMark s.wrapper).Yields visits ()) (rbGcLocation : VALUE → VALUE)
    (hinj : Function.Injective rbGcLocation) (objectAt : VALUE → O)
    (hmoved : ∀ v, .markMovable v ∈ visits → objectAt (rbGcLocation v) = s.objectAt v)
    {wrapper : FrameWrapper}
    (hcompact : (frameWrapperCompact rbGcLocation s.wrapper).Yields [] wrapper) :
    WrapperStep s { s with objectAt := objectAt, wrapper := wrapper }

/-- The invariant: the slots in use denote what their frames denoted when they were captured. -/
structure WrappingInv {O : Type} (s : Wrapping O) : Prop where
  capa : s.phase ≠ .made → s.wrapper.capa = s.count
  frames : s.phase.isBuilt = true → s.wrapper.frames.length = s.count
  unbuilt : s.phase.isBuilt = false → s.wrapper.len = 0
  taken : s.taken.length = s.wrapper.len + s.phase.pending
  denotes : ∀ (j : ℕ) (d : Denoted O), s.taken[j]? = some d →
    ∃ loc, s.wrapper.frames[j]? = some loc ∧ loc.denote s.objectAt = d

section

variable {O : Type} {s s' : Wrapping O}

theorem RawLocation.denote_congr {loc : RawLocation} {objectAt objectAt' : VALUE → O}
    (h : ∀ v ∈ loc.references, objectAt' v = objectAt v) :
    loc.denote objectAt' = loc.denote objectAt := by
  unfold RawLocation.denote
  rw [h loc.iseq (by simp [references]), h loc.callableMethodEntry (by simp [references]),
    h loc.selfOrSelfClass (by simp [references])]

theorem denote_frameCompact {loc : RawLocation} {rbGcLocation : VALUE → VALUE}
    (objectAt : VALUE → O) :
    (frameCompact rbGcLocation loc).denote objectAt =
      loc.denote fun v => objectAt (rbGcLocation v) := rfl

/-- The slots in use are slots of the array. -/
theorem WrappingInv.taken_le (h : WrappingInv s) : s.taken.length ≤ s.wrapper.frames.length := by
  by_contra hlt
  obtain ⟨d, hd⟩ : ∃ d, s.taken[s.wrapper.frames.length]? = some d :=
    ⟨_, List.getElem?_eq_getElem (by omega)⟩
  obtain ⟨loc, hloc, -⟩ := h.denotes _ d hd
  rw [List.getElem?_eq_none le_rfl] at hloc
  cases hloc

theorem WrappingInv.len_le (h : WrappingInv s) : s.wrapper.len ≤ s.wrapper.frames.length := by
  have := h.taken_le
  have := h.taken
  omega

theorem WrappingInv.len_le_capa (h : WrappingInv s) : s.wrapper.len ≤ s.wrapper.capa := by
  cases hbuilt : s.phase.isBuilt with
  | false =>
    rw [h.unbuilt hbuilt]
    exact Nat.zero_le _
  | true =>
    have hmade : s.phase ≠ .made := by
      intro hphase
      rw [hphase] at hbuilt
      cases hbuilt
    rw [h.capa hmade, ← h.frames hbuilt]
    exact h.len_le

/-- A reference of a slot below the length is marked. -/
theorem mem_references {wrapper : FrameWrapper} {j : ℕ} {loc : RawLocation} {v : VALUE}
    (hj : j < wrapper.len) (hloc : wrapper.frames[j]? = some loc) (hv : v ∈ loc.references) :
    .markMovable v ∈ wrapper.references.map Visit.markMovable := by
  refine List.mem_map_of_mem (List.mem_flatMap.2 ⟨loc, ?_, hv⟩)
  refine List.mem_of_getElem? (i := j) ?_
  rw [List.getElem?_take_of_lt hj]
  exact hloc

/-! ## One step -/

theorem wrappingInv_made (objectAt : VALUE → O) (count : ℕ) :
    WrappingInv (Wrapping.made objectAt count) where
  capa h := absurd rfl h
  frames h := by cases h
  unbuilt _ := rfl
  taken := rfl
  denotes j d h := by cases h

/-- Before the wrapper is built, nothing was captured. -/
theorem WrappingInv.taken_nil (h : WrappingInv s) (hbuilt : s.phase.isBuilt = false)
    (hpending : s.phase.pending = 0) : s.taken = [] := by
  apply List.eq_nil_of_length_eq_zero
  rw [h.taken, h.unbuilt hbuilt, hpending]

theorem setCapa_inv (hphase : s.phase = .made) (h : WrappingInv s) :
    WrappingInv { s with wrapper := s.wrapper.setCapa s.count, phase := .sized } where
  capa _ := rfl
  frames hbuilt := by cases hbuilt
  unbuilt _ := h.unbuilt (by rw [hphase]; rfl)
  taken := by
    have htaken := h.taken
    rwa [hphase] at htaken
  denotes := h.denotes

theorem setLen_inv (hphase : s.phase = .sized) (h : WrappingInv s) :
    WrappingInv { s with wrapper := s.wrapper.setLen 0, phase := .emptied } where
  capa _ := h.capa (by rw [hphase]; exact Phase.noConfusion)
  frames hbuilt := by cases hbuilt
  unbuilt _ := rfl
  taken := by
    show s.taken.length = 0
    rw [h.taken_nil (by rw [hphase]; rfl) (by rw [hphase]; rfl), List.length_nil]
  denotes := h.denotes

theorem setFrames_inv (hphase : s.phase = .emptied) (h : WrappingInv s) :
    WrappingInv { s with wrapper := s.wrapper.setFrames s.count, phase := .ready } where
  capa _ := h.capa (by rw [hphase]; exact Phase.noConfusion)
  frames _ := List.length_replicate
  unbuilt hbuilt := by cases hbuilt
  taken := by
    have htaken := h.taken
    rwa [hphase] at htaken
  denotes j d hd := by
    change s.taken[j]? = some d at hd
    rw [h.taken_nil (by rw [hphase]; rfl) (by rw [hphase]; rfl)] at hd
    cases hd

/-- A captured location denotes what its frame does, in all fields. -/
theorem capture_denote {rt : Runtime} {thread : VALUE} {i : ℕ} {slot loc : RawLocation}
    {objectAt : VALUE → O} (hcapture : captureFrameForThread rt thread i slot = .ok (true, loc)) :
    loc.denote objectAt = (threadFrame rt.toVM thread i).denote rt objectAt := by
  obtain ⟨-, hcapture⟩ := captureForThread_true hcapture
  obtain ⟨-, -, rfl⟩ := capture_ok hcapture
  rfl

/-- A capture fills the slot behind those in use. -/
theorem capture_inv (hphase : s.phase = .ready) (hroom : s.wrapper.len < s.wrapper.capa)
    {rt : Runtime} {thread : VALUE} {i : ℕ} {slot loc : RawLocation}
    (hcapture : captureFrameForThread rt thread i slot = .ok (true, loc)) (h : WrappingInv s) :
    WrappingInv { s with
      wrapper := s.wrapper.setSlot s.wrapper.len loc
      phase := .captured
      taken := s.taken ++ [(threadFrame rt.toVM thread i).denote rt s.objectAt] } where
  capa _ := h.capa (by rw [hphase]; exact Phase.noConfusion)
  frames _ := by
    show (s.wrapper.frames.set _ _).length = s.count
    rw [List.length_set]
    exact h.frames (by rw [hphase]; rfl)
  unbuilt hbuilt := by cases hbuilt
  taken := by
    have htaken := h.taken
    rw [hphase] at htaken
    show (s.taken ++ [_]).length = s.wrapper.len + 1
    rw [List.length_append, htaken]
    rfl
  denotes j d hd := by
    have htaken := h.taken
    rw [hphase] at htaken
    show ∃ loc', (s.wrapper.frames.set s.wrapper.len loc)[j]? = some loc' ∧ _
    rcases Nat.lt_or_ge j s.taken.length with hj | hj
    · rw [List.getElem?_append_left hj] at hd
      obtain ⟨loc', hloc', hdenotes⟩ := h.denotes j d hd
      have hne : s.wrapper.len ≠ j := by
        intro heq
        rw [htaken, heq] at hj
        exact absurd hj (lt_irrefl _)
      exact ⟨loc', by rwa [List.getElem?_set_ne hne], hdenotes⟩
    · rw [List.getElem?_append_right hj] at hd
      obtain ⟨hzero, hlast⟩ := List.getElem?_eq_some_iff.1 hd
      have hj' : j = s.wrapper.len := by
        rw [List.length_singleton] at hzero
        have hpending : Phase.ready.pending = 0 := rfl
        omega
      rw [List.getElem_singleton] at hlast
      subst hj' hlast
      have hlt : s.wrapper.len < s.wrapper.frames.length := by
        rw [h.frames (by rw [hphase]; rfl), ← h.capa (by rw [hphase]; exact Phase.noConfusion)]
        exact hroom
      exact ⟨loc, List.getElem?_set_self hlt, capture_denote hcapture⟩

theorem captureFailed_eq {rt : Runtime} {thread : VALUE} {i : ℕ} {slot loc : RawLocation}
    (hslot : frameAt s.wrapper.frames s.wrapper.len = .ok slot)
    (hcapture : captureFrameForThread rt thread i slot = .ok (false, loc)) :
    s.wrapper.setSlot s.wrapper.len loc = s.wrapper := by
  rw [captureForThread_false hcapture]
  exact setSlot_self (getElem?_of_frameAt hslot)

theorem count_inv (hphase : s.phase = .captured) (h : WrappingInv s) :
    WrappingInv { s with wrapper := s.wrapper.setLen (s.wrapper.len + 1), phase := .ready } where
  capa _ := h.capa (by rw [hphase]; exact Phase.noConfusion)
  frames _ := h.frames (by rw [hphase]; rfl)
  unbuilt hbuilt := by cases hbuilt
  taken := by
    have htaken := h.taken
    rwa [hphase] at htaken
  denotes := h.denotes

/-- Where the callbacks can be run, the length counts all slots in use. -/
theorem WrappingInv.lt_len (h : WrappingInv s) (hphase : s.phase ≠ .captured) {j : ℕ}
    {d : Denoted O} (hd : s.taken[j]? = some d) : j < s.wrapper.len := by
  have hj : j < s.taken.length := (List.getElem?_eq_some_iff.1 hd).1
  have hpending : s.phase.pending = 0 := by
    cases hcase : s.phase with
    | captured => exact absurd hcase hphase
    | _ => rfl
  rwa [h.taken, hpending, Nat.add_zero] at hj

/-- Marking visits the references of the slots below the length. -/
theorem WrappingInv.mark_yields (h : WrappingInv s) :
    (frameWrapperMark s.wrapper).Yields (s.wrapper.references.map .markMovable) () :=
  frameWrapperMark_yields h.len_le

/-- A collection keeps what was marked. -/
theorem mark_inv (hphase : s.phase ≠ .captured) {visits : List Visit}
    (hmark : (frameWrapperMark s.wrapper).Yields visits ()) {objectAt : VALUE → O}
    (hkept : ∀ v, .markMovable v ∈ visits → objectAt v = s.objectAt v) (h : WrappingInv s) :
    WrappingInv { s with objectAt := objectAt } where
  capa := h.capa
  frames := h.frames
  unbuilt := h.unbuilt
  taken := h.taken
  denotes j d hd := by
    obtain ⟨loc, hloc, rfl⟩ := h.denotes j d hd
    rw [← hmark.trace, h.mark_yields.trace] at hkept
    refine ⟨loc, hloc, RawLocation.denote_congr fun v hv => hkept v ?_⟩
    exact mem_references (h.lt_len hphase hd) hloc hv

/-- A compaction tells the wrapper where what was marked has moved. -/
theorem compact_inv (hphase : s.phase ≠ .captured) {visits : List Visit}
    (hmark : (frameWrapperMark s.wrapper).Yields visits ()) {rbGcLocation : VALUE → VALUE}
    {objectAt : VALUE → O}
    (hmoved : ∀ v, .markMovable v ∈ visits → objectAt (rbGcLocation v) = s.objectAt v)
    {wrapper : FrameWrapper}
    (hcompact : (frameWrapperCompact rbGcLocation s.wrapper).Yields [] wrapper)
    (h : WrappingInv s) : WrappingInv { s with objectAt := objectAt, wrapper := wrapper } := by
  have hyields := frameWrapperCompact_yields rbGcLocation h.len_le
  obtain rfl : wrapper = s.wrapper.compacted rbGcLocation s.wrapper.len :=
    Except.ok.inj (hcompact.result.symm.trans hyields.result)
  refine ⟨h.capa, fun hbuilt => ?_, h.unbuilt, h.taken, fun j d hd => ?_⟩
  · exact length_compacted.trans (h.frames hbuilt)
  · obtain ⟨loc, hloc, rfl⟩ := h.denotes j d hd
    rw [← hmark.trace, h.mark_yields.trace] at hmoved
    have hj := h.lt_len hphase hd
    refine ⟨frameCompact rbGcLocation loc, compacted_getElem? h.len_le hj hloc, ?_⟩
    rw [denote_frameCompact]
    exact RawLocation.denote_congr fun v hv => hmoved v (mem_references hj hloc hv)

/-- **Every step keeps the invariant.** -/
theorem WrapperStep.inv (hstep : WrapperStep s s') (h : WrappingInv s) : WrappingInv s' := by
  cases hstep with
  | setCapa hphase => exact setCapa_inv hphase h
  | setLen hphase => exact setLen_inv hphase h
  | setFrames hphase => exact setFrames_inv hphase h
  | capture hphase hroom hslot hcapture => exact capture_inv hphase hroom hcapture h
  | captureFailed hphase hroom hslot hcapture =>
    rw [captureFailed_eq hslot hcapture]
    exact h
  | count hphase => exact count_inv hphase h
  | mark hphase hmark objectAt hkept => exact mark_inv hphase hmark hkept h
  | compact hphase hmark rbGcLocation hinj objectAt hmoved hcompact =>
    exact compact_inv hphase hmark hmoved hcompact h

/-! ## Every run -/

/-- A wrapper that was just built. -/
def Wrapping.built (objectAt : VALUE → O) (count : ℕ) : Wrapping O :=
  { objectAt := objectAt, count := count, wrapper := frameWrapperNew count, phase := .ready
    taken := [] }

theorem built_run (objectAt : VALUE → O) (count : ℕ) :
    Relation.ReflTransGen WrapperStep (Wrapping.made objectAt count)
      (Wrapping.built objectAt count) :=
  ((Relation.ReflTransGen.single (.setCapa rfl)).tail (.setLen rfl)).tail (.setFrames rfl)

theorem wrappingInv_of_run {objectAt : VALUE → O} {count : ℕ}
    (h : Relation.ReflTransGen WrapperStep (Wrapping.made objectAt count) s) : WrappingInv s := by
  induction h with
  | refl => exact wrappingInv_made objectAt count
  | tail _ hstep ih => exact hstep.inv ih

end

/-- **The invariant of a frame wrapper**, in every state of every run of a wrapper of any capacity.
The length is at most the capacity, and counts the captured frames. Each slot below the length has
all fields of the frame captured into it, and denotes the objects that frame denoted then. Marking
visits exactly the references of these slots, and compaction replaces exactly them. A capture that
fails changes nothing. -/
theorem wrapper_invariant {O : Type} (objectAt : VALUE → O) (count : ℕ) (s : Wrapping O)
    (hrun : Relation.ReflTransGen WrapperStep (Wrapping.made objectAt count) s) :
    s.wrapper.len ≤ s.wrapper.capa ∧
    s.taken.length = s.wrapper.len + s.phase.pending ∧
    (∀ j, j < s.wrapper.len → ∃ loc d, s.wrapper.frames[j]? = some loc ∧ s.taken[j]? = some d ∧
      loc.denote s.objectAt = d) ∧
    (frameWrapperMark s.wrapper).Yields (s.wrapper.references.map .markMovable) () ∧
    (∀ rbGcLocation : VALUE → VALUE, Function.Injective rbGcLocation →
      (frameWrapperCompact rbGcLocation s.wrapper).Yields []
        (s.wrapper.compacted rbGcLocation s.wrapper.len)) ∧
    ∀ (rt : Runtime) (thread : VALUE) (i : ℕ) (slot loc : RawLocation),
      frameAt s.wrapper.frames s.wrapper.len = .ok slot →
      captureFrameForThread rt thread i slot = .ok (false, loc) →
      loc = slot ∧ s.wrapper.setSlot s.wrapper.len loc = s.wrapper := by
  have h := wrappingInv_of_run hrun
  refine ⟨h.len_le_capa, h.taken, fun j hj => ?_, h.mark_yields,
    fun rbGcLocation _ => frameWrapperCompact_yields rbGcLocation h.len_le,
    fun rt thread i slot loc hslot hcapture =>
      ⟨captureForThread_false hcapture, captureFailed_eq hslot hcapture⟩⟩
  obtain ⟨d, hd⟩ : ∃ d, s.taken[j]? = some d := by
    have := h.taken
    exact ⟨_, List.getElem?_eq_getElem (by omega)⟩
  obtain ⟨loc, hloc, hdenotes⟩ := h.denotes j d hd
  exact ⟨loc, d, hloc, hd, hdenotes⟩

/-- A wrapper for two frames, with one captured and every object moved since. -/
theorem wrapper_invariant_moved :
    ∃ s : Wrapping ℕ, Relation.ReflTransGen WrapperStep (Wrapping.made id 2) s ∧
      s.wrapper.len = 1 ∧
      (frameWrapperMark s.wrapper).Yields
        [.markMovable 57, .markMovable 65, .markMovable 49] () := by
  obtain ⟨s, hrun, hlen, hreferences⟩ : ∃ s : Wrapping ℕ,
      Relation.ReflTransGen WrapperStep (Wrapping.made id 2) s ∧ s.wrapper.len = 1 ∧
        s.wrapper.references = [57, 65, 49] := by
    have hcapture : WrapperStep (Wrapping.built id 2) _ :=
      @WrapperStep.capture ℕ (Wrapping.built id 2) rfl Nat.zero_lt_two
        (bootRuntime (bootThread false [rubyFrame 48])) 96 0 _ _ rfl rfl
    have hcount := (built_run id 2).tail hcapture |>.tail (.count rfl)
    have hcompact := hcount.tail (.compact Phase.noConfusion (frameWrapperMark_yields le_add_self)
      (· + 1) (add_left_injective 1) (· - 1) (fun v _ => Nat.add_sub_cancel v 1)
      (frameWrapperCompact_yields _ le_add_self))
    exact ⟨_, hcompact, rfl, rfl⟩
  obtain ⟨-, -, -, hmark, -⟩ := wrapper_invariant id 2 s hrun
  rw [hreferences] at hmark
  exact ⟨s, hrun, hlen, hmark⟩

end Backtracie
