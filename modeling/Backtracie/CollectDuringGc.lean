import Backtracie.Retention
import Backtracie.Compaction
import Backtracie.Backtrace

/-!
# Collecting a backtrace while the garbage collector runs

Each location that `collect_backtrace_locations` makes is made of new Ruby objects. So the garbage
collector may run between any two queries of its second loop, while the captured frames are only
kept by the frame wrapper, and so may the program. Here each query is asked in a state of its own,
with the collector at work from one state to the next (`GcRun`).

* `gcRun_collected`: a collector that sweeps the heap and moves an object before each query;
* `backtrace_during_gc`: the backtrace is the one that is made when the collector does not run; only
  the objects in the debug hash may have moved.
-/

namespace Backtracie

open CMem Traced

/-- The states of a run of the garbage collector, with any number of steps from one to the next. -/
structure GcRun (start : Wrapped) (state : ℕ → Wrapped) : Prop where
  zero : state 0 = start
  step : ∀ n, Relation.ReflTransGen GcStep (state n) (state (n + 1))

/-- The heap is swept from the references of the wrapper, and then compacted. -/
noncomputable def Wrapped.collected (σ : Relocation) (s : Wrapped) : Wrapped :=
  let vm := s.rt.toVM.swept s.wrapper.references
  { rt := s.rt.withVM (vm.relocate σ), wrapper := s.wrapper.compacted σ s.wrapper.len }

theorem Wrapped.collected_steps {σ : Relocation} {s : Wrapped}
    (hmain : σ s.rt.mainObjectInstance = s.rt.mainObjectInstance)
    (hroom : s.wrapper.len ≤ s.wrapper.frames.length) :
    Relation.ReflTransGen GcStep s (s.collected σ) := by
  let swept : Wrapped := { s with rt := s.rt.withVM (s.rt.toVM.swept s.wrapper.references) }
  have hsweep : GcStep s swept :=
    .collect (frameWrapperMark_yields hroom) (fun _ hv => mem_of_markMovable hv)
      (s.rt.toVM.survives_swept _)
  have hcompact : GcStep swept (s.collected σ) :=
    GcStep.compact (s := swept) σ hmain (frameWrapperCompact_yields σ hroom)
  exact (Relation.ReflTransGen.single hsweep).tail hcompact

/-- The main object stays where it is, and the slots in use are slots of the wrapper. -/
theorem Wrapped.collected_iterate {σ : Relocation} {s : Wrapped}
    (hmain : σ s.rt.mainObjectInstance = s.rt.mainObjectInstance)
    (hroom : s.wrapper.len ≤ s.wrapper.frames.length) (n : ℕ) :
    let t := (Wrapped.collected σ)^[n] s
    σ t.rt.mainObjectInstance = t.rt.mainObjectInstance ∧
      t.wrapper.len ≤ t.wrapper.frames.length := by
  induction n with
  | zero => exact ⟨hmain, hroom⟩
  | succ n ih =>
    rw [Function.iterate_succ_apply']
    exact ⟨ih.1, ih.2.trans_eq length_compacted.symm⟩

/-- **A collector that never rests**: it sweeps the heap and compacts it before each query. -/
theorem gcRun_collected {σ : Relocation} {s : Wrapped}
    (hmain : σ s.rt.mainObjectInstance = s.rt.mainObjectInstance)
    (hroom : s.wrapper.len ≤ s.wrapper.frames.length) :
    GcRun s fun n => (Wrapped.collected σ)^[n] s := by
  refine ⟨rfl, fun n => ?_⟩
  obtain ⟨hmain', hroom'⟩ := Wrapped.collected_iterate hmain hroom n
  rw [Function.iterate_succ_apply']
  exact Wrapped.collected_steps hmain' hroom'

/-! ## The second loop -/

section

variable {α : Type} (junk : ℕ → UInt8) (depth : ℕ) (minLoc : MinimalLocation)

/-- Ask a question about slot `i` of the wrapper. -/
def Wrapped.ask (s : Wrapped) (i : ℕ) (query : Runtime → RawLocation → Comp α) : Comp α := do
  let loc ← lift (frameAt s.wrapper.frames i)
  query s.rt loc

/-- What `frame_to_location` takes from the previous Ruby frame, when query `k` is asked in the
state `gc k`. -/
def sourcePositionDuring (gc : ℕ → Wrapped) (rawLoc : ℕ) : Option ℕ → Comp SourcePosition
  | some prevRubyLoc => do
    let filenameAbs ← (gc 0).ask prevRubyLoc fun rt loc => frameFilenameRbstr junk rt loc true
    let filenameRel ← (gc 1).ask prevRubyLoc fun rt loc => frameFilenameRbstr junk rt loc false
    let lineNumber ← (gc 2).ask prevRubyLoc fun rt loc => lift (frameLineNumber rt loc)
    pure { filenameAbs := filenameAbs, filenameRel := filenameRel, lineNumber := lineNumber.toInt,
           pathIsSynthetic := decide (rawLoc ≠ prevRubyLoc) }
  | none =>
    let filenameAbs := rbStrNew2 (lit "(in native code)")
    pure { filenameAbs := some filenameAbs, filenameRel := some filenameAbs, lineNumber := 0,
           pathIsSynthetic := true }

/-- `frame_to_location`, when query `k` is asked in the state `gc k`. -/
def frameToLocationDuring (gc : ℕ → Wrapped) (rawLoc : ℕ) (prevRubyLoc : Option ℕ) :
    Comp Location := do
  let source ← sourcePositionDuring junk gc rawLoc prevRubyLoc
  let baseLabel ← (gc 3).ask rawLoc fun rt loc => frameLabelRbstr junk rt loc true
  let label ← (gc 4).ask rawLoc fun rt loc => frameLabelRbstr junk rt loc false
  let name ← (gc 5).ask rawLoc fun rt loc => frameNameRbstr junk rt depth minLoc loc
  let debug ← (gc 6).ask rawLoc fun rt loc => lift (debugRawLocation rt loc)
  pure { absolutePath := source.filenameAbs, baseLabel := baseLabel, label := label
         lineno := source.lineNumber, path := source.filenameRel, qualifiedMethodName := name
         pathIsSynthetic := source.pathIsSynthetic, debug := debug }

/-- The round of slot `i` of `len`: the rounds before it took eight states each. -/
def locationRoundDuring (gc : ℕ → Wrapped) (len : ℕ) (state : Option ℕ × List (Option Location))
    (i : ℕ) : Collect (Option ℕ × List (Option Location)) := do
  let now := fun k => gc (8 * (len - 1 - i) + k)
  let loc ← lift (frameAt (now 0).wrapper.frames i)
  let prevRubyLoc := if loc.isRubyFrame then some i else state.1
  let rbLoc ← lift
    (frameToLocationDuring junk depth minLoc (fun k => now (k + 1)) i prevRubyLoc).result
  emit (.store i)
  pure (prevRubyLoc, rbAryStore state.2 i rbLoc)

/-- The second loop. -/
def buildLocationsDuring (gc : ℕ → Wrapped) (len : ℕ) : Collect (List (Option Location)) := do
  let state ← fold (locationRoundDuring junk depth minLoc gc len) (none, [])
    (List.range len).reverse
  pure state.2

/-- `collect_backtrace_locations`, where the states after the first loop are those that `gc` gives
for the wrapper. -/
def collectBacktraceLocationsDuring (gc : FrameWrapper → ℕ → Wrapped) (rt : Runtime)
    (thread : VALUE) (ignoredStackTopFrames : ℕ) : Collect (Option (List (Option Location))) :=
  let thread := threadOrCurrent rt thread
  if ¬isThreadAlive rt.toVM thread then pure none
  else do
    let rawFrameCount := frameCountForThread rt.toVM thread
    let wrapper ← fold (captureRound rt thread) (frameWrapperNew rawFrameCount)
      (List.range' ignoredStackTopFrames (rawFrameCount - ignoredStackTopFrames))
    let rbLocations ← buildLocationsDuring junk depth minLoc (gc wrapper) wrapper.len
    pure (some rbLocations)

end

/-! ## Locations without the objects in the debug hash -/

/-- What the debug hash says, without the objects in it: the value of `self_or_self_class`, and the
values in the hash under `rb_profile_frames`. -/
def DebugInfo.withoutObjects (debug : DebugInfo) : DebugInfo :=
  { debug with
    rbProfileFrames := debug.rbProfileFrames.map fun entries =>
      entries.map fun entry => (entry.1, qnil)
    selfOrSelfClass := qnil }

/-- A location without the objects in its debug hash. -/
def Location.withoutObjects (location : Location) : Location :=
  { location with debug := location.debug.withoutObjects }

/-- A backtrace without the objects in the debug hashes. -/
def withoutObjects (ary : List (Option Location)) : List (Option Location) :=
  ary.map (Option.map Location.withoutObjects)

/-- The hash of `debug_frame` has the same keys for every frame. -/
theorem debugFrame_withoutObjects (rt : Runtime) (frame : VALUE) :
    ((debugFrame rt frame).map fun entries => entries.map fun entry => (entry.1, qnil)) =
      if frame = qnil then none else some (ProfileQuery.all.map fun query => (query, qnil)) := by
  unfold debugFrame
  split
  · rfl
  · rw [Option.map_some, List.map_map]
    rfl

theorem withoutObjects_rbAryStore (ary : List (Option Location)) (i : ℕ) (location : Location) :
    withoutObjects (rbAryStore ary i location) =
      rbAryStore (withoutObjects ary) i location.withoutObjects := by
  unfold withoutObjects rbAryStore
  rw [List.length_map]
  split
  · rw [List.map_set]
    rfl
  · simp

/-! ## Questions in different states -/

section

variable {α : Type} {junk : ℕ → UInt8} {depth : ℕ} {minLoc : MinimalLocation} {s t : Wrapped}
  {i j : ℕ} {loc : RawLocation}

/-- The states of a run have the same answers. -/
theorem GcRun.sameAnswers {state : ℕ → Wrapped} (h : GcRun s state)
    (hroom : s.wrapper.len ≤ s.wrapper.frames.length) (n : ℕ) : SameAnswers s (state n) := by
  have hrun : Relation.ReflTransGen GcStep s (state n) := by
    induction n with
    | zero =>
      rw [h.zero]
    | succ n ih => exact ih.trans (h.step n)
  exact gcRun_sameAnswers hrun hroom

/-- A question whose answer depends on the `FrameAnswers` alone. -/
def Determined (query : Runtime → RawLocation → Comp α) : Prop :=
  ∃ answer : FrameAnswers → Comp α, ∀ rt loc, query rt loc = answer (frameAnswers rt loc)

theorem determined_filename (absolute : Bool) :
    Determined fun rt loc => frameFilenameRbstr junk rt loc absolute :=
  ⟨fun a => rbstrQuery junk (a.filename absolute), fun _ _ => rfl⟩

theorem determined_label (base : Bool) :
    Determined fun rt loc => frameLabelRbstr junk rt loc base :=
  ⟨fun a => rbstrQuery junk (a.label base), fun _ _ => rfl⟩

theorem determined_name : Determined fun rt loc => frameNameRbstr junk rt depth minLoc loc :=
  ⟨fun a => do
    let str ← strbuilderInitGrowable junk initialBufsize
    let written ← onBuilder junk str (a.name depth minLoc)
    finishValue written.2, fun _ _ => rfl⟩

theorem determined_lineNumber :
    Determined fun rt loc => (lift (frameLineNumber rt loc) : Comp (BitVec 32)) :=
  ⟨fun a => lift a.lineNumber, fun _ _ => rfl⟩

/-- A slot in use, afterwards. -/
theorem SameAnswers.slot (h : SameAnswers s t) (hj : j < s.wrapper.len)
    (hloc : s.wrapper.frames[j]? = some loc) :
    ∃ loc', t.wrapper.frames[j]? = some loc' ∧ frameAnswers t.rt loc' = frameAnswers s.rt loc := by
  have hlt : j < t.wrapper.frames.length := h.length ▸ (List.getElem?_eq_some_iff.1 hloc).1
  have hget := List.getElem?_eq_getElem hlt
  exact ⟨_, hget, h.same j loc _ hj hloc hget⟩

/-- A question about a slot in use is answered as before. -/
theorem SameAnswers.ask_eq (h : SameAnswers s t) (hj : j < s.wrapper.len)
    (hloc : s.wrapper.frames[j]? = some loc) {query : Runtime → RawLocation → Comp α}
    (hquery : Determined query) : t.ask j query = query s.rt loc := by
  obtain ⟨loc', hloc', hsame⟩ := h.slot hj hloc
  obtain ⟨answer, hanswer⟩ := hquery
  unfold Wrapped.ask
  rw [frameAt_of_getElem? hloc', lift_ok, pure_bind, hanswer, hanswer, hsame]

/-- Where the answers are the same, so is what the debug hash says without the objects in it. -/
theorem debugRawLocation_matches {rt rt' : Runtime} {loc loc' : RawLocation}
    (hsame : frameAnswers rt' loc' = frameAnswers rt loc) :
    Matches (fun a b => a.withoutObjects = b.withoutObjects)
      (lift (debugRawLocation rt' loc') : Comp DebugInfo) (lift (debugRawLocation rt loc)) := by
  have hruby : loc'.isRubyFrame = loc.isRubyFrame := congrArg FrameAnswers.isRubyFrame hsame
  have hself : loc'.selfIsRealSelf = loc.selfIsRealSelf :=
    congrArg FrameAnswers.selfIsRealSelf hsame
  have hpc : loc'.pc = loc.pc := congrArg FrameAnswers.pc hsame
  have hprofile : (frameForRbProfile rt' loc').map (fun frame => decide (frame ≠ qnil)) =
      (frameForRbProfile rt loc).map fun frame => decide (frame ≠ qnil) :=
    congrArg FrameAnswers.profile hsame
  unfold debugRawLocation
  generalize frameForRbProfile rt' loc' = found' at hprofile ⊢
  generalize frameForRbProfile rt loc = found at hprofile ⊢
  rcases found' with e | frame' <;> rcases found with e' | frame
  · cases hprofile
    exact .error [] e
  · cases hprofile
  · cases hprofile
  · have hselected : frame' ≠ qnil ↔ frame ≠ qnil := decide_eq_decide.1 (Except.ok.inj hprofile)
    refine .ok [] ?_
    unfold DebugInfo.withoutObjects
    dsimp only
    rw [hruby, hself, hpc, debugFrame_withoutObjects, debugFrame_withoutObjects]
    simp only [not_iff_not.1 hselected]
    rfl

/-- The debug hash is made as before, of objects that may have moved. -/
theorem SameAnswers.ask_debug (h : SameAnswers s t) (hj : j < s.wrapper.len)
    (hloc : s.wrapper.frames[j]? = some loc) :
    Matches (fun a b => a.withoutObjects = b.withoutObjects)
      (t.ask j fun rt loc => (lift (debugRawLocation rt loc) : Comp DebugInfo))
      (lift (debugRawLocation s.rt loc)) := by
  obtain ⟨loc', hloc', hsame⟩ := h.slot hj hloc
  unfold Wrapped.ask
  rw [frameAt_of_getElem? hloc', lift_ok, pure_bind]
  exact debugRawLocation_matches hsame

end

/-! ## The loops in step -/

section

variable {junk : ℕ → UInt8} {depth : ℕ} {minLoc : MinimalLocation} {s : Wrapped}
  {gc : ℕ → Wrapped} {i : ℕ} {loc : RawLocation}

/-- The position of a slot, with the previous Ruby frame in a slot in use. -/
theorem sourcePositionDuring_eq (hgc : ∀ n, SameAnswers s (gc n)) (i : ℕ) {prevRubyLoc : Option ℕ}
    (hroom : s.wrapper.len ≤ s.wrapper.frames.length)
    (hprev : ∀ j, prevRubyLoc = some j → j < s.wrapper.len) :
    sourcePositionDuring junk gc i prevRubyLoc =
      sourcePosition junk s.rt s.wrapper.frames i prevRubyLoc := by
  cases prevRubyLoc with
  | none => rfl
  | some j =>
    have hj := hprev j rfl
    obtain ⟨loc, hloc⟩ : ∃ loc, s.wrapper.frames[j]? = some loc :=
      ⟨_, List.getElem?_eq_getElem (hj.trans_le hroom)⟩
    unfold sourcePositionDuring sourcePosition
    dsimp only
    rw [(hgc 0).ask_eq hj hloc (determined_filename true),
      (hgc 1).ask_eq hj hloc (determined_filename false),
      (hgc 2).ask_eq hj hloc determined_lineNumber, frameAt_of_getElem? hloc, lift_ok, pure_bind]

/-- The location of a slot. -/
theorem frameToLocationDuring_matches (hgc : ∀ n, SameAnswers s (gc n))
    (hroom : s.wrapper.len ≤ s.wrapper.frames.length) (hi : i < s.wrapper.len)
    (hloc : s.wrapper.frames[i]? = some loc) {prevRubyLoc : Option ℕ}
    (hprev : ∀ j, prevRubyLoc = some j → j < s.wrapper.len) :
    Matches (fun a b => a.withoutObjects = b.withoutObjects)
      (frameToLocationDuring junk depth minLoc gc i prevRubyLoc)
      (frameToLocation junk s.rt depth minLoc s.wrapper.frames i prevRubyLoc) := by
  unfold frameToLocationDuring frameToLocation
  rw [sourcePositionDuring_eq hgc i hroom hprev, frameAt_of_getElem? hloc]
  simp only [lift_ok, pure_bind, (hgc 3).ask_eq hi hloc (determined_label true),
    (hgc 4).ask_eq hi hloc (determined_label false), (hgc 5).ask_eq hi hloc determined_name]
  apply Matches.bind_left
  intro _ source _
  apply Matches.bind_left
  intro _ baseLabel _
  apply Matches.bind_left
  intro _ label _
  apply Matches.bind_left
  intro _ name _
  apply ((hgc 6).ask_debug hi hloc).bind
  intro debug debug' hdebug
  refine .ok [] ?_
  unfold Location.withoutObjects
  rw [hdebug]

/-- What the two second loops have in common: the previous Ruby frame, in a slot in use, and the
locations. -/
structure SameLoop (len : ℕ) (state state' : Option ℕ × List (Option Location)) : Prop where
  prevRubyLoc : state.1 = state'.1
  inUse : ∀ j, state.1 = some j → j < len
  locations : withoutObjects state.2 = withoutObjects state'.2

theorem locationRoundDuring_matches (hgc : ∀ n, SameAnswers s (gc n))
    (hroom : s.wrapper.len ≤ s.wrapper.frames.length) (hi : i < s.wrapper.len)
    {state state' : Option ℕ × List (Option Location)} (h : SameLoop s.wrapper.len state state') :
    Matches (SameLoop s.wrapper.len)
      (locationRoundDuring junk depth minLoc gc s.wrapper.len state i)
      (locationRound junk s.rt depth minLoc s.wrapper.frames state' i) := by
  obtain ⟨loc, hloc⟩ : ∃ loc, s.wrapper.frames[i]? = some loc :=
    ⟨_, List.getElem?_eq_getElem (hi.trans_le hroom)⟩
  unfold locationRoundDuring locationRound
  obtain ⟨loc', hloc', hsame⟩ := (hgc (8 * (s.wrapper.len - 1 - i) + 0)).slot hi hloc
  have hruby : loc'.isRubyFrame = loc.isRubyFrame := congrArg FrameAnswers.isRubyFrame hsame
  simp only [frameAt_of_getElem? hloc', frameAt_of_getElem? hloc, lift_ok, pure_bind, hruby,
    ← h.prevRubyLoc]
  generalize hprev : (if loc.isRubyFrame = true then some i else state.1) = prevRubyLoc
  have hinUse : ∀ j, prevRubyLoc = some j → j < s.wrapper.len := by
    rintro j rfl
    split at hprev
    · rwa [← Option.some.inj hprev]
    · exact h.inUse j hprev
  apply (frameToLocationDuring_matches (fun n => hgc _) hroom hi hloc hinUse).lift_result.bind
  intro a b hab
  have hstored : SameLoop s.wrapper.len (prevRubyLoc, rbAryStore state.2 i a)
      (prevRubyLoc, rbAryStore state'.2 i b) := by
    refine ⟨rfl, hinUse, ?_⟩
    rw [withoutObjects_rbAryStore, withoutObjects_rbAryStore, h.locations, hab]
  exact .ok [CollectEvent.store i] hstored

theorem buildLocationsDuring_matches (hgc : ∀ n, SameAnswers s (gc n))
    (hroom : s.wrapper.len ≤ s.wrapper.frames.length) :
    Matches (fun ary ary' => withoutObjects ary = withoutObjects ary')
      (buildLocationsDuring junk depth minLoc gc s.wrapper.len)
      (buildLocations junk s.rt depth minLoc s.wrapper.frames s.wrapper.len) := by
  have hstart : SameLoop s.wrapper.len (none, []) (none, []) :=
    ⟨rfl, fun j hj => (nomatch hj), rfl⟩
  have hround : ∀ i ∈ (List.range s.wrapper.len).reverse, ∀ state state',
      SameLoop s.wrapper.len state state' →
      Matches (SameLoop s.wrapper.len)
        (locationRoundDuring junk depth minLoc gc s.wrapper.len state i)
        (locationRound junk s.rt depth minLoc s.wrapper.frames state' i) := by
    intro i hi state state' h
    exact locationRoundDuring_matches hgc hroom (List.mem_range.1 (List.mem_reverse.1 hi)) h
  have hloop := Matches.fold hround hstart
  apply hloop.bind
  intro state state' h
  exact .ok [] h.locations

end

/-! ## The wrapper after the first loop -/

/-- The slots in use are slots of the wrapper. -/
theorem captureRound_room {rt : Runtime} {thread : VALUE} {wrapper wrapper' : FrameWrapper} {i : ℕ}
    {tr : List CollectEvent} (h : wrapper.len ≤ wrapper.frames.length)
    (hround : (captureRound rt thread wrapper i).Yields tr wrapper') :
    wrapper'.len ≤ wrapper'.frames.length := by
  obtain ⟨_, _, _, -, hround, -⟩ := hround.of_bind
  obtain ⟨_, slot, _, hslot, hround, -⟩ := hround.of_bind
  obtain ⟨_, ⟨validFrame, loc⟩, _, -, hround, -⟩ := hround.of_bind
  have hlt : wrapper.len < wrapper.frames.length :=
    (List.getElem?_eq_some_iff.1 (getElem?_of_frameAt hslot.result)).1
  cases validFrame with
  | false =>
    cases hround
    rwa [List.length_set]
  | true =>
    obtain ⟨_, _, _, -, hround, -⟩ := hround.of_bind
    cases hround
    rw [List.length_set]
    exact hlt

/-- **The backtrace does not depend on the garbage collector.** Let `gc` give, for each wrapper, the
states of a run of the collector, which may collect all that is not reached from what the wrapper
marks, and move objects, before each query of the second loop. Then `collect_backtrace_locations`
does the same as without it and returns the same, or ends in the same fault: only the objects in
the debug hashes, which are the value of `self_or_self_class` and the values under
`rb_profile_frames`, may have moved. -/
theorem backtrace_during_gc (junk : ℕ → UInt8) (depth : ℕ) (minLoc : MinimalLocation)
    (rt : Runtime) (gc : FrameWrapper → ℕ → Wrapped)
    (hgc : ∀ wrapper : FrameWrapper, wrapper.len ≤ wrapper.frames.length →
      GcRun { rt := rt, wrapper := wrapper } (gc wrapper))
    (thread : VALUE) (ignoredStackTopFrames : ℕ) :
    Matches (fun ary ary' => ary.map withoutObjects = ary'.map withoutObjects)
      (collectBacktraceLocationsDuring junk depth minLoc gc rt thread ignoredStackTopFrames)
      (collectBacktraceLocations junk rt depth minLoc thread ignoredStackTopFrames) := by
  unfold collectBacktraceLocationsDuring collectBacktraceLocations
  dsimp only
  split
  · exact .ok [] rfl
  · apply Matches.bind_left
    intro tr wrapper hwrapper
    have hroom : wrapper.len ≤ wrapper.frames.length :=
      fold_preserves (P := fun wrapper : FrameWrapper => wrapper.len ≤ wrapper.frames.length)
        (fun _ _ _ _ h hround => captureRound_room h hround) (Nat.zero_le _) hwrapper
    have hsame := (hgc wrapper hroom).sameAnswers hroom
    apply (buildLocationsDuring_matches hsame hroom).bind
    intro ary ary' h
    exact .ok [] (congrArg some h)

/-- A thread that is in the method `m`. -/
def inMethod : Runtime := bootRuntime (bootThread false [rubyFrame 48])

/-- The wrapper after the first loop, with the frame of the method. -/
def methodWrapper : FrameWrapper :=
  ((frameWrapperNew 1).setSlot 0 (locationOfFrame inMethod (rubyFrame 48))).setLen 1

/-- A collector that sweeps the heap and moves the iseq, there and back, before each query. -/
noncomputable def restlessGc (wrapper : FrameWrapper) (n : ℕ) : Wrapped :=
  (Wrapped.collected iseqMove)^[n] { rt := inMethod, wrapper := wrapper }

/-- The method entry of `c` is freed, the iseq of the method is moved, the array is made. -/
theorem backtrace_during_gc_restless :
    (restlessGc methodWrapper 0).wrapper.references = [56, 64, 48] ∧
    (restlessGc methodWrapper 1).wrapper.references = [560, 64, 48] ∧
    inMethod.methodEntryAt 72 ≠ none ∧ (restlessGc methodWrapper 1).rt.methodEntryAt 72 = none ∧
    (restlessGc methodWrapper 1).rt.iseqAt 560 = inMethod.iseqAt 56 ∧
    ∃ depth tr ary ary',
      (collectBacktraceLocationsDuring (fun _ => 0) depth MinimalLocation.zeroed restlessGc inMethod
        96 0).Yields tr (some ary) ∧
      (collectBacktraceLocations (fun _ => 0) inMethod depth MinimalLocation.zeroed 96 0).Yields tr
        (some ary') ∧
      withoutObjects ary = withoutObjects ary' ∧ ary'.length = 1 := by
  have hroots : 56 ∈ methodWrapper.references ∧ 72 ∉ methodWrapper.references := by decide
  have hgc : ∀ wrapper : FrameWrapper, wrapper.len ≤ wrapper.frames.length →
      GcRun { rt := inMethod, wrapper := wrapper } (restlessGc wrapper) :=
    fun wrapper hroom => gcRun_collected rfl hroom
  refine ⟨by decide, by decide, by decide, ?_, ?_, ?_⟩
  · have hswept : (inMethod.toVM.swept methodWrapper.references).methodEntryAt 72 = none :=
      if_neg (bootVM_not_reached hroots.2)
    exact congrArg (Option.map (MethodEntry.relocate iseqMove)) hswept
  · have hswept : (inMethod.toVM.swept methodWrapper.references).iseqAt 56 = inMethod.iseqAt 56 :=
      if_pos (.of_mem hroots.1)
    exact congrArg (Option.map (Iseq.relocate iseqMove)) hswept
  · have hstack : (stackOf [rubyFrame 48]).Lawful inMethod.toVM := by
      apply stackOf_lawful
      intro frame hframe
      rw [List.mem_singleton.1 hframe]
      exact rubyFrame_lawful _ 48
    have halive : isThreadAlive inMethod.toVM (threadOrCurrent inMethod 96) := bootThread_alive _
    obtain ⟨N, hN⟩ := collect_alive (bootVM_lawful _) hstack halive rfl 0
    obtain ⟨tr, ary', hrun, -, hlocates⟩ := hN N le_rfl (fun _ => 0) MinimalLocation.zeroed
    obtain ⟨ary, hduring, hsame⟩ := (backtrace_during_gc (fun _ => 0) N MinimalLocation.zeroed
      inMethod restlessGc hgc 96 0).yields hrun
    obtain _ | ary := ary
    · cases hsame
    · exact ⟨N, _, ary, ary', hduring, hrun, Option.some.inj hsame, hlocates.length⟩

end Backtracie
