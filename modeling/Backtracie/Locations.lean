import Backtracie.Profile
import Backtracie.Foundations.Nearest

/-!
# The locations of captured frames

The second loop of `collect_backtrace_locations`, by its invariant: from the last slot to the
first, the nearest Ruby frame is at hand (`LocationInv`). So each location has the labels and the
name of its own frame, and the path and the line of the nearest Ruby frame from that slot on
(`LocationOf`).

* `sourcePosition_nearest`, `frameToLocation_ok`: one location;
* `buildLocations_spec`: the loop, for names that can be written;
* `native_frames_attributed`: the loop, for the frames of a lawful VM.
-/

namespace Backtracie

open CMem Traced Nearest

/-- A raw location that was captured from a valid frame. -/
def Captured (rt : Runtime) (loc : RawLocation) : Prop :=
  ∃ frame : ControlFrame, frame.Lawful rt.toVM ∧ isValidFrame rt.toVM frame = .ok true ∧
    loc = locationOfFrame rt frame

/-! ## One location -/

section

variable (junk : ℕ → UInt8) (rt : Runtime) (depth : ℕ) (minLoc : MinimalLocation)

/-- The position is that of the Ruby frame `loc` in slot `j`, as seen from slot `i`. -/
structure PositionOf (loc : RawLocation) (i j : ℕ) (pos : SourcePosition) : Prop where
  filenameAbs : (frameFilenameRbstr junk rt loc true).result = .ok pos.filenameAbs
  filenameRel : (frameFilenameRbstr junk rt loc false).result = .ok pos.filenameRel
  lineNumber : ∃ lineno, frameLineNumber rt loc = .ok lineno ∧ pos.lineNumber = lineno.toInt
  pathIsSynthetic : pos.pathIsSynthetic = decide (i ≠ j)

/-- The position of code that no Ruby frame has called. -/
def nativePosition : SourcePosition :=
  { filenameAbs := some (rbStrNew2 (lit "(in native code)"))
    filenameRel := some (rbStrNew2 (lit "(in native code)"))
    lineNumber := 0
    pathIsSynthetic := true }

/-- The part of a location that comes from the nearest Ruby frame. -/
def Location.position (location : Location) : SourcePosition :=
  { filenameAbs := location.absolutePath, filenameRel := location.path
    lineNumber := location.lineno, pathIsSynthetic := location.pathIsSynthetic }

/-- The labels, the name and the debug information are those of `loc`. -/
structure DescribesFrame (loc : RawLocation) (location : Location) : Prop where
  label : (frameLabelRbstr junk rt loc false).result = .ok location.label
  baseLabel : (frameLabelRbstr junk rt loc true).result = .ok location.baseLabel
  name : (frameNameRbstr junk rt depth minLoc loc).result = .ok location.qualifiedMethodName
  debug : debugRawLocation rt loc = .ok location.debug

/-- The location of slot `i` of the captured frames `frames`. -/
structure LocationOf (frames : List RawLocation) (i : ℕ) (location : Location) : Prop where
  own : ∃ loc, frames[i]? = some loc ∧ DescribesFrame junk rt depth minLoc loc location
  /-- With a Ruby frame at `i` or below, the position is that of the nearest one. -/
  ruby : ∀ j loc, i ≤ j → frames[j]? = some loc → loc.isRubyFrame = true →
    (∀ m loc', i ≤ m → m < j → frames[m]? = some loc' → loc'.isRubyFrame = false) →
    PositionOf junk rt loc i j location.position
  native : (∀ j loc, i ≤ j → frames[j]? = some loc → loc.isRubyFrame = false) →
    location.position = nativePosition

end

section

variable {junk : ℕ → UInt8} {rt : Runtime} {depth : ℕ} {minLoc : MinimalLocation}
  {frames slots : List RawLocation} {i j : ℕ} {loc : RawLocation}

theorem frameLineNumber_ok (hframe : Captured rt loc) (hruby : loc.isRubyFrame = true) :
    ∃ lineno, frameLineNumber rt loc = .ok lineno := by
  obtain ⟨frame, hlawful, -, rfl⟩ := hframe
  rcases frameIseq_cases hlawful.toProper with ⟨-, h0, -⟩ | ⟨iseq, -, -, hiseq, -⟩
  · exact absurd h0 (hlawful.rubyframe_iseq hruby)
  · exact calcLineno_ok hiseq frame.pc

theorem debugRawLocation_ok (hframe : Captured rt loc) :
    ∃ debug, debugRawLocation rt loc = .ok debug := by
  obtain ⟨frame, hlawful, -, rfl⟩ := hframe
  unfold debugRawLocation
  rw [frameForRbProfile_eq hlawful.toProper]
  exact ⟨_, rfl⟩

variable (hrt : rt.toVM.Lawful)

include hrt

/-- Both labels of a captured frame can be written. -/
theorem frameLabel_ok (hframe : Captured rt loc) (base : Bool) :
    ∃ s, ∀ junk, (frameLabelRbstr junk rt loc base).result = .ok (some s) := by
  obtain ⟨frame, hlawful, hvalid, rfl⟩ := hframe
  exact frameLabel_returns hrt hlawful hvalid base

/-- The position of a captured Ruby frame. -/
theorem sourcePosition_some (junk : ℕ → UInt8) (i : ℕ) (hget : slots[j]? = some loc)
    (hframe : Captured rt loc) (hruby : loc.isRubyFrame = true) :
    ∃ pos, (sourcePosition junk rt slots i (some j)).result = .ok pos ∧
      PositionOf junk rt loc i j pos := by
  obtain ⟨lineno, hlineno⟩ := frameLineNumber_ok hframe hruby
  obtain ⟨frame, hlawful, -, rfl⟩ := hframe
  obtain ⟨abs, habs⟩ := frameFilename_returns hrt hlawful.toProper true
  obtain ⟨rel, hrel⟩ := frameFilename_returns hrt hlawful.toProper false
  refine ⟨{ filenameAbs := abs, filenameRel := rel, lineNumber := lineno.toInt,
            pathIsSynthetic := decide (i ≠ j) }, ?_,
    habs junk, hrel junk, ⟨lineno, hlineno, rfl⟩, rfl⟩
  rw [sourcePosition, frameAt_of_getElem? hget, lift_ok, pure_bind, result_bind (habs junk),
    result_bind (hrel junk), hlineno]
  rfl

/-- **The position of a slot**: that of the nearest Ruby frame, if there is one. -/
theorem sourcePosition_nearest (junk : ℕ → UInt8)
    (hslots : ∀ m, m < frames.length → slots[m]? = frames[m]?)
    (hframes : ∀ loc ∈ frames, Captured rt loc) (i : ℕ) :
    ∃ pos, (sourcePosition junk rt slots i
        (nearest RawLocation.isRubyFrame frames i)).result = .ok pos ∧
      (∀ j loc, i ≤ j → frames[j]? = some loc → loc.isRubyFrame = true →
        (∀ m loc', i ≤ m → m < j → frames[m]? = some loc' → loc'.isRubyFrame = false) →
        PositionOf junk rt loc i j pos) ∧
      ((∀ j loc, i ≤ j → frames[j]? = some loc → loc.isRubyFrame = false) →
        pos = nativePosition) := by
  rcases hnearest : nearest RawLocation.isRubyFrame frames i with _ | j
  · refine ⟨nativePosition, rfl, ?_, fun _ => rfl⟩
    intro j loc hj hloc hruby hbetween
    rw [nearest_of_first hj hloc hruby hbetween] at hnearest
    cases hnearest
  · obtain ⟨-, ⟨loc, hloc, hruby⟩, -⟩ := nearest_eq_some hnearest
    have hj : j < frames.length := (List.getElem?_eq_some_iff.1 hloc).1
    obtain ⟨pos, hpos, hposition⟩ := sourcePosition_some hrt junk i ((hslots j hj).trans hloc)
      (hframes _ (List.mem_of_getElem? hloc)) hruby
    refine ⟨pos, hpos, ?_, ?_⟩
    · intro j' loc' hj' hloc' hruby' hbetween
      rw [nearest_of_first hj' hloc' hruby' hbetween] at hnearest
      obtain rfl := Option.some.inj hnearest
      obtain rfl := Option.some.inj (hloc.symm.trans hloc')
      exact hposition
    · intro hnone
      rw [nearest_of_none hnone] at hnearest
      cases hnearest

/-- With its position, the location of a slot can be made. -/
theorem frameToLocation_of_position {prevRubyLoc : Option ℕ} {pos : SourcePosition}
    (hpos : (sourcePosition junk rt slots i prevRubyLoc).result = .ok pos)
    (hslot : slots[i]? = some loc) (hframe : Captured rt loc)
    (hname : ∃ s, (frameNameRbstr junk rt depth minLoc loc).result = .ok s) :
    ∃ location, (frameToLocation junk rt depth minLoc slots i prevRubyLoc).result = .ok location ∧
      DescribesFrame junk rt depth minLoc loc location ∧ location.position = pos := by
  obtain ⟨name, hname⟩ := hname
  obtain ⟨debug, hdebug⟩ := debugRawLocation_ok hframe
  obtain ⟨label, hlabel⟩ := frameLabel_ok hrt hframe false
  obtain ⟨baseLabel, hbaseLabel⟩ := frameLabel_ok hrt hframe true
  refine ⟨{ absolutePath := pos.filenameAbs, baseLabel := some baseLabel, label := some label
            lineno := pos.lineNumber, path := pos.filenameRel, qualifiedMethodName := name
            pathIsSynthetic := pos.pathIsSynthetic, debug := debug }, ?_,
    ⟨hlabel junk, hbaseLabel junk, hname, hdebug⟩, rfl⟩
  unfold frameToLocation
  rw [result_bind hpos, frameAt_of_getElem? hslot, lift_ok, pure_bind,
    result_bind (hbaseLabel junk), result_bind (hlabel junk), result_bind hname, hdebug]
  rfl

/-- **The location of a slot**: with the nearest Ruby frame at hand, it can be made. -/
theorem frameToLocation_ok (hslots : ∀ m, m < frames.length → slots[m]? = frames[m]?)
    (hframes : ∀ loc ∈ frames, Captured rt loc) (hi : i < frames.length)
    (hname : ∃ s, (frameNameRbstr junk rt depth minLoc frames[i]).result = .ok s) :
    ∃ location, (frameToLocation junk rt depth minLoc slots i
        (nearest RawLocation.isRubyFrame frames i)).result = .ok location ∧
      LocationOf junk rt depth minLoc frames i location := by
  have hget : frames[i]? = some frames[i] := List.getElem?_eq_getElem hi
  obtain ⟨pos, hpos, hruby, hnative⟩ := sourcePosition_nearest hrt junk hslots hframes i
  obtain ⟨location, hlocation, hdescribes, rfl⟩ := frameToLocation_of_position hrt hpos
    ((hslots i hi).trans hget) (hframes _ (List.getElem_mem hi)) hname
  exact ⟨location, hlocation, ⟨_, hget, hdescribes⟩, hruby, hnative⟩

end

/-! ## The loops -/

section

variable {junk : ℕ → UInt8} {rt : Runtime} {depth : ℕ} {minLoc : MinimalLocation}
  {frames slots : List RawLocation}

theorem length_rbAryStore {α : Type} {ary : List (Option α)} {i : ℕ} {x : α} :
    (rbAryStore ary i x).length = max ary.length (i + 1) := by
  unfold rbAryStore
  split
  · rw [List.length_set]
    omega
  · simp only [List.length_append, List.length_replicate, List.length_singleton]
    omega

theorem rbAryStore_self {α : Type} (ary : List (Option α)) (i : ℕ) (x : α) :
    (rbAryStore ary i x)[i]? = some (some x) := by
  unfold rbAryStore
  split
  · next h => exact List.getElem?_set_self h
  · have hpadded : (ary ++ List.replicate (i - ary.length) none).length = i := by
      rw [List.length_append, List.length_replicate]
      omega
    rw [List.getElem?_append_right hpadded.le, hpadded, Nat.sub_self]
    rfl

theorem rbAryStore_of_ne {α : Type} {ary : List (Option α)} {i j : ℕ} (x : α) (hj : j < ary.length)
    (hne : j ≠ i) : (rbAryStore ary i x)[j]? = ary[j]? := by
  unfold rbAryStore
  split
  · exact List.getElem?_set_ne hne.symm
  · rw [List.append_assoc, List.getElem?_append_left hj]

/-- What the array holds when the locations from index `j` on have been stored. -/
structure StoredFrom (junk : ℕ → UInt8) (rt : Runtime) (depth : ℕ) (minLoc : MinimalLocation)
    (frames : List RawLocation) (j : ℕ) (ary : List (Option Location)) : Prop where
  length : ary.length = if j = frames.length then 0 else frames.length
  stored : ∀ i, j ≤ i → i < frames.length → ∃ location, ary[i]? = some (some location) ∧
    LocationOf junk rt depth minLoc frames i location

/-- The array holds one location for each of the frames, in their order. -/
structure LocatesFrames (junk : ℕ → UInt8) (rt : Runtime) (depth : ℕ) (minLoc : MinimalLocation)
    (frames : List RawLocation) (ary : List (Option Location)) : Prop where
  length : ary.length = frames.length
  located : ∀ i, i < frames.length → ∃ location, ary[i]? = some (some location) ∧
    LocationOf junk rt depth minLoc frames i location

theorem StoredFrom.store {j : ℕ} {ary : List (Option Location)} {location : Location}
    (h : StoredFrom junk rt depth minLoc frames (j + 1) ary) (hj : j < frames.length)
    (hlocation : LocationOf junk rt depth minLoc frames j location) :
    StoredFrom junk rt depth minLoc frames j (rbAryStore ary j location) := by
  have hlen := h.length
  refine ⟨?_, fun i hji hi => ?_⟩
  · rw [length_rbAryStore, if_neg (by omega)]
    by_cases hlast : j + 1 = frames.length
    · rw [if_pos hlast] at hlen
      omega
    · rw [if_neg hlast] at hlen
      omega
  · rcases Nat.eq_or_lt_of_le hji with rfl | hlt
    · exact ⟨location, rbAryStore_self _ _ _, hlocation⟩
    · rw [if_neg (by omega)] at hlen
      rw [rbAryStore_of_ne _ (by omega) (by omega)]
      exact h.stored i hlt hi

/-- The invariant of the second loop: the nearest Ruby frame from index `j` on is at hand, and the
locations from index `j` on are stored. -/
structure LocationInv (junk : ℕ → UInt8) (rt : Runtime) (depth : ℕ) (minLoc : MinimalLocation)
    (frames : List RawLocation) (j : ℕ) (state : Option ℕ × List (Option Location)) : Prop where
  prevRubyLoc : state.1 = nearest RawLocation.isRubyFrame frames j
  stored : StoredFrom junk rt depth minLoc frames j state.2

/-- One round of the second loop. -/
theorem locationRound_inv (hrt : rt.toVM.Lawful)
    (hslots : ∀ m, m < frames.length → slots[m]? = frames[m]?)
    (hframes : ∀ loc ∈ frames, Captured rt loc)
    (hnames : ∀ loc ∈ frames, ∃ s, (frameNameRbstr junk rt depth minLoc loc).result = .ok s)
    {j : ℕ} {state : Option ℕ × List (Option Location)} (hj : j < frames.length)
    (hinv : LocationInv junk rt depth minLoc frames (j + 1) state) :
    ∃ state', (locationRound junk rt depth minLoc slots state j).Yields [.store j] state' ∧
      LocationInv junk rt depth minLoc frames j state' := by
  have hget : frames[j]? = some frames[j] := List.getElem?_eq_getElem hj
  have hslot : slots[j]? = some frames[j] := (hslots j hj).trans hget
  have hmem : frames[j] ∈ frames := List.getElem_mem hj
  have hprev : (if frames[j].isRubyFrame then some j else state.1) =
      nearest RawLocation.isRubyFrame frames j := by
    cases hruby : frames[j].isRubyFrame with
    | true =>
      rw [nearest_of_pos hget hruby]
      rfl
    | false =>
      rw [nearest_of_neg hget hruby, hinv.prevRubyLoc]
      rfl
  obtain ⟨location, hlocation, hspec⟩ :=
    frameToLocation_ok hrt hslots hframes hj (hnames _ hmem)
  refine ⟨(nearest RawLocation.isRubyFrame frames j, rbAryStore state.2 j location), ?_, rfl,
    hinv.stored.store hj hspec⟩
  unfold locationRound
  simp only [frameAt_of_getElem? hslot, lift_ok, pure_bind, hprev, hlocation]
  rfl

/-- **The second loop**: it makes a location of each captured frame and stores each element of the
array once, from the last to the first. -/
theorem buildLocations_spec (hrt : rt.toVM.Lawful)
    (hslots : ∀ m, m < frames.length → slots[m]? = frames[m]?)
    (hframes : ∀ loc ∈ frames, Captured rt loc)
    (hnames : ∀ loc ∈ frames, ∃ s, (frameNameRbstr junk rt depth minLoc loc).result = .ok s) :
    ∃ ary, (buildLocations junk rt depth minLoc slots frames.length).Yields
        ((List.range frames.length).reverse.map .store) ary ∧
      LocatesFrames junk rt depth minLoc frames ary := by
  have hstart : LocationInv junk rt depth minLoc frames frames.length (none, []) :=
    ⟨(nearest_of_length_le le_rfl).symm, by simp, fun i hi hlt => absurd hlt (by omega)⟩
  obtain ⟨state, hloop, hinv⟩ := fold_countDown (LocationInv junk rt depth minLoc frames)
    (fun j => [CollectEvent.store j])
    (fun j state hj hinv => locationRound_inv hrt hslots hframes hnames hj hinv) hstart
  refine ⟨state.2, ?_, ?_, fun i hi => hinv.stored.stored i (Nat.zero_le i) hi⟩
  · rw [← List.map_eq_flatMap] at hloop
    have hdone := hloop.bind (f := fun state => pure state.2) (Yields.pure state.2)
    rwa [List.append_nil] at hdone
  · have hlen := hinv.stored.length
    by_cases hzero : 0 = frames.length
    · rw [if_pos hzero] at hlen
      exact hlen.trans hzero
    · rwa [if_neg hzero] at hlen

/-- One bound on the counter does for the names of all the frames, and from there on the name of a
frame is always the same. -/
theorem frameName_uniform (hrt : rt.toVM.Lawful) (hframes : ∀ loc ∈ frames, Captured rt loc) :
    ∃ N, ∀ loc ∈ frames, ∃ s, ∀ depth, N ≤ depth → ∀ junk minLoc,
      (frameNameRbstr junk rt depth minLoc loc).result = .ok s := by
  obtain ⟨N, hN⟩ := @exists_common_bound
    (fun i n => ∀ loc, frames[i]? = some loc → ∃ s, ∀ depth, n ≤ depth → ∀ junk minLoc,
      (frameNameRbstr junk rt depth minLoc loc).result = .ok s) frames.length
    fun i hi => by
      obtain ⟨frame, hlawful, hvalid, hloc⟩ := hframes _ (List.getElem_mem hi)
      obtain ⟨s, N, hN⟩ := frameName_returns hrt hlawful hvalid
      refine ⟨N, fun n hn loc hget => ?_⟩
      rw [List.getElem?_eq_getElem hi, hloc] at hget
      obtain rfl := Option.some.inj hget
      exact ⟨s, fun depth hdepth => hN depth (hn.trans hdepth)⟩
  refine ⟨N, fun loc hloc => ?_⟩
  obtain ⟨i, hi, rfl⟩ := List.mem_iff_getElem.1 hloc
  exact hN N le_rfl i hi _ (List.getElem?_eq_getElem hi)

theorem frameName_ok {N : ℕ}
    (hN : ∀ loc ∈ frames, ∃ s, ∀ depth, N ≤ depth → ∀ junk minLoc,
      (frameNameRbstr junk rt depth minLoc loc).result = .ok s) (hdepth : N ≤ depth) :
    ∀ loc ∈ frames, ∃ s, (frameNameRbstr junk rt depth minLoc loc).result = .ok s := by
  intro loc hloc
  obtain ⟨s, hs⟩ := hN loc hloc
  exact ⟨s, hs depth hdepth junk minLoc⟩

end

/-- **The paths of native frames.** For all captured frames, in the first slots of a wrapper, the
location of each frame has the labels and the name of that frame. Its paths and its line are those
of the nearest Ruby frame from there on, and synthetic if that is another frame; without a Ruby
frame from there on, they are those of native code. -/
theorem native_frames_attributed (junk : ℕ → UInt8) (rt : Runtime) (hrt : rt.toVM.Lawful)
    (minLoc : MinimalLocation) (frames rest : List RawLocation)
    (hframes : ∀ loc ∈ frames, Captured rt loc) :
    ∃ N, ∀ depth, N ≤ depth → ∃ ary,
      (buildLocations junk rt depth minLoc (frames ++ rest) frames.length).result = .ok ary ∧
      LocatesFrames junk rt depth minLoc frames ary := by
  obtain ⟨N, hN⟩ := frameName_uniform hrt hframes
  refine ⟨N, fun depth hdepth => ?_⟩
  obtain ⟨ary, hary, hlocates⟩ := buildLocations_spec hrt
    (fun m hm => List.getElem?_append_left hm) hframes (frameName_ok hN hdepth)
  exact ⟨ary, hary.result, hlocates⟩

/-- A C function called from a Ruby frame is located in that frame. -/
theorem native_frames_attributed_cFrame :
    ∃ depth ary location, (buildLocations (fun _ => 0) (bootRuntime (bootThread false [])) depth
        MinimalLocation.zeroed
        ([cFrame 48, rubyFrame 48].map (locationOfFrame (bootRuntime (bootThread false []))) ++ [])
        2).result = .ok ary ∧ ary[0]? = some (some location) ∧ location.lineno = 1 ∧
      location.pathIsSynthetic = true := by
  obtain ⟨N, hN⟩ := native_frames_attributed (fun _ => 0) (bootRuntime (bootThread false []))
    (bootVM_lawful _) MinimalLocation.zeroed
    ([cFrame 48, rubyFrame 48].map (locationOfFrame (bootRuntime (bootThread false [])))) []
    (fun loc hloc => by
      simp only [List.map_cons, List.map_nil, List.mem_cons, List.not_mem_nil, or_false] at hloc
      rcases hloc with rfl | rfl
      · exact ⟨_, cFrame_lawful _ 48, rfl, rfl⟩
      · exact ⟨_, rubyFrame_lawful _ 48, rfl, rfl⟩)
  obtain ⟨ary, hary, hlocates⟩ := hN N le_rfl
  obtain ⟨location, hget, hlocation⟩ := hlocates.located 0 (Nat.zero_lt_succ 1)
  have hposition := hlocation.ruby 1 (locationOfFrame (bootRuntime (bootThread false []))
      (rubyFrame 48)) (Nat.zero_le 1) rfl rfl fun m loc _ hm hloc => by
    obtain rfl : m = 0 := by omega
    obtain rfl := Option.some.inj hloc
    rfl
  obtain ⟨lineno, hlineno, hline⟩ := hposition.lineNumber
  have hone : frameLineNumber (bootRuntime (bootThread false []))
      (locationOfFrame (bootRuntime (bootThread false [])) (rubyFrame 48)) =
        .ok (BitVec.ofNat 32 1) := rfl
  obtain rfl := Except.ok.inj (hone.symm.trans hlineno)
  exact ⟨N, ary, location, hary, hget, hline, hposition.pathIsSynthetic⟩

end Backtracie
