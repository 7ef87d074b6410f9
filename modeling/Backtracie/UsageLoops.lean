import Backtracie.Backtrace
import Backtracie.ReferenceName
import Backtracie.Foundations.Filling

/-!
# The loop of the users

The loop in `backtracie.h` that shows how to capture the frames of a thread: as many slots as the
count says, each valid frame in the slot behind the valid ones before it. It can be written with
raw locations and with minimal ones. `usage_loops_agree`: both fill the same number of slots,
without a fault, whatever the two arrays hold before, and slot for slot the two records have the
same name, line number and kind of frame.
-/

namespace Backtracie

open CMem Traced Filling

section

variable (rt : Runtime)

/-- The loop over `locs`, with the number of valid frames. -/
def captureFrames (thread : VALUE) (locs : List RawLocation) :
    Traced Empty Fault (State RawLocation) :=
  fill (.wild locs.length 1 locs.length) (captureFrameForThread rt thread) locs
    (List.range (frameCountForThread rt.toVM thread))

/-- The same loop with `backtracie_capture_minimal_frame_for_thread`; `rawLocs i` is what the local
variable of that function holds in round `i` before it is assigned. -/
def captureMinimalFrames (rawLocs : ℕ → RawLocation) (thread : VALUE)
    (locs : List MinimalLocation) : Traced Empty Fault (State MinimalLocation) :=
  fill (.wild locs.length 1 locs.length)
    (fun i => captureMinimalFrameForThread rt (rawLocs i) thread i) locs
    (List.range (frameCountForThread rt.toVM thread))

/-- The indices of the valid frames of a thread. -/
def validIndices (thread : VALUE) : List ℕ :=
  (List.range (frameCountForThread rt.toVM thread)).filter
    (isValidAt rt.toVM (rt.threadAt thread).ec)

/-- The minimal record answers as the raw location does. The line numbers are compared as words of
32 bits: that of the raw location is read as an `int` and that of the record as a `uint32_t`, so
that for a negative line the two numbers read are not the same. -/
structure AnswersAs (loc : RawLocation) (minLoc : MinimalLocation) : Prop where
  isRubyFrame : minLoc.isRubyFrame = loc.isRubyFrame
  name : ∀ junk depth before buf,
    minimalFrameNameCstr junk rt depth minLoc buf = frameNameCstr junk rt depth before loc buf
  lineNumber : loc.isRubyFrame = true → frameLineNumber rt loc = .ok minLoc.lineNumber

end

variable {rt : Runtime} {thread : VALUE} {ec : ExecutionContext} {i : ℕ} {frame : ControlFrame}
  {loc : RawLocation} {before m m' minLoc : MinimalLocation}

/-! ## The kind of frame -/

theorem fillMethodName_isRubyFrame (h : fillMethodName rt loc m = .ok m') :
    m'.isRubyFrame = m.isRubyFrame := by
  unfold fillMethodName at h
  split at h
  · obtain ⟨cme, -, h⟩ := except_bind_ok h
    cases h
    rfl
  · split at h
    · obtain ⟨iseq, -, h⟩ := except_bind_ok h
      cases h
      rfl
    · cases h
      rfl

theorem fillIseqType_isRubyFrame (h : fillIseqType rt loc m = .ok m') :
    m'.isRubyFrame = m.isRubyFrame := by
  unfold fillIseqType at h
  split at h
  · obtain ⟨iseq, -, h⟩ := except_bind_ok h
    obtain ⟨lineno, -, h⟩ := except_bind_ok h
    cases h
    rfl
  · cases h
    rfl

theorem fillMethodQualifier_isRubyFrame (h : fillMethodQualifier rt loc m = .ok m') :
    m'.isRubyFrame = m.isRubyFrame := by
  unfold fillMethodQualifier at h
  split at h
  · cases h
    rfl
  · split at h
    · obtain ⟨cme, -, h⟩ := except_bind_ok h
      cases h
      rfl
    · cases h
      rfl

theorem toMinimalLocation_isRubyFrame
    (h : rawLocationToMinimalLocation rt loc before = .ok minLoc) :
    minLoc.isRubyFrame = loc.isRubyFrame := by
  obtain ⟨m, hname, h⟩ := except_bind_ok h
  obtain ⟨m', hiseq, h⟩ := except_bind_ok h
  rw [fillMethodQualifier_isRubyFrame h, fillIseqType_isRubyFrame hiseq,
    fillMethodName_isRubyFrame hname]

/-! ## The two captures of a frame -/

/-- The minimal record of a captured frame answers as the raw location does. -/
theorem Minimizes.answersAs (h : Minimizes rt frame before minLoc) (hframe : frame.Lawful rt.toVM)
    (hmin : rawLocationToMinimalLocation rt (locationOfFrame rt frame) before = .ok minLoc) :
    AnswersAs rt (locationOfFrame rt frame) minLoc where
  isRubyFrame := toMinimalLocation_isRubyFrame hmin
  name junk depth before' buf := by
    unfold minimalFrameNameCstr frameNameCstr
    rw [h.name_eq, frameName_eq hframe.toProper before']
  lineNumber hruby := h.lineNumber (hframe.rubyframe_iseq hruby)

/-- A frame that passes the validity test is captured into any minimal record. -/
theorem captureMinimal_of_valid (halive : isThreadAlive rt.toVM thread)
    (hthread : (rt.threadAt thread).ec = ec) (hec : ec.Lawful rt.toVM) (hi : i < stackDepth ec)
    (hvalid : isValidAt rt.toVM ec i = true) (rawLoc : RawLocation) (before : MinimalLocation) :
    ∃ minLoc, captureMinimalFrameForThread rt rawLoc thread i before = .ok (true, minLoc) ∧
      AnswersAs rt (rawLocationAt rt ec i) minLoc := by
  obtain ⟨minLoc, hmin, hkeeps⟩ := toMinimalLocation_minimizes (hec i hi).toProper before
  refine ⟨minLoc, ?_, hkeeps.answersAs (hec i hi) hmin⟩
  have hcapture : captureFrameForThread rt thread i rawLoc = .ok (true, rawLocationAt rt ec i) := by
    rw [captureForThread_of_alive halive, hthread, capture_eq_isValidAt hec hi, hvalid]
    rfl
  unfold captureMinimalFrameForThread
  rw [hcapture]
  show (rawLocationToMinimalLocation rt (rawLocationAt rt ec i) before >>=
    fun loc => pure (true, loc)) = .ok (true, minLoc)
  unfold rawLocationAt
  rw [hmin]
  rfl

/-- Another frame of the stack leaves the record as it was. -/
theorem captureMinimal_of_not_valid (halive : isThreadAlive rt.toVM thread)
    (hthread : (rt.threadAt thread).ec = ec) (hec : ec.Lawful rt.toVM) (hi : i < stackDepth ec)
    (hvalid : isValidAt rt.toVM ec i = false) (rawLoc : RawLocation) (before : MinimalLocation) :
    captureMinimalFrameForThread rt rawLoc thread i before = .ok (false, before) := by
  unfold captureMinimalFrameForThread
  rw [captureForThread_of_alive halive, hthread, capture_eq_isValidAt hec hi, hvalid]
  rfl

/-- A thread with frames to count is alive. -/
theorem alive_of_lt_frameCount (h : i < frameCountForThread rt.toVM thread) :
    isThreadAlive rt.toVM thread ∧ i < stackDepth (rt.threadAt thread).ec := by
  unfold frameCountForThread at h
  split at h
  · exact absurd h (Nat.not_lt_zero i)
  · next halive => exact ⟨not_not.1 halive, frameCount_eq_stackDepth ▸ h⟩

/-! ## The two loops -/

theorem captureFrames_spec (hec : (rt.threadAt thread).ec.Lawful rt.toVM) {locs : List RawLocation}
    (hroom : frameCountForThread rt.toVM thread ≤ locs.length) :
    ∃ locs', (captureFrames rt thread locs).result = .ok (locs', (validIndices rt thread).length) ∧
      Filled (isValidAt rt.toVM (rt.threadAt thread).ec)
        (fun i loc => loc = rawLocationAt rt (rt.threadAt thread).ec i) locs
        (List.range (frameCountForThread rt.toVM thread))
        (locs', (validIndices rt thread).length) := by
  apply fill_spec (by rwa [List.length_range])
  · intro i hi hvalid slot
    obtain ⟨halive, hlt⟩ := alive_of_lt_frameCount (List.mem_range.1 hi)
    refine ⟨_, ?_, rfl⟩
    rw [captureForThread_of_alive halive, capture_eq_isValidAt hec hlt, hvalid]
    rfl
  · intro i hi hvalid slot
    obtain ⟨halive, hlt⟩ := alive_of_lt_frameCount (List.mem_range.1 hi)
    rw [captureForThread_of_alive halive, capture_eq_isValidAt hec hlt, hvalid]
    rfl

theorem captureMinimalFrames_spec (hec : (rt.threadAt thread).ec.Lawful rt.toVM)
    (rawLocs : ℕ → RawLocation) {locs : List MinimalLocation}
    (hroom : frameCountForThread rt.toVM thread ≤ locs.length) :
    ∃ locs', (captureMinimalFrames rt rawLocs thread locs).result =
        .ok (locs', (validIndices rt thread).length) ∧
      Filled (isValidAt rt.toVM (rt.threadAt thread).ec)
        (fun i minLoc => AnswersAs rt (rawLocationAt rt (rt.threadAt thread).ec i) minLoc) locs
        (List.range (frameCountForThread rt.toVM thread))
        (locs', (validIndices rt thread).length) := by
  apply fill_spec (by rwa [List.length_range])
  · intro i hi hvalid slot
    obtain ⟨halive, hlt⟩ := alive_of_lt_frameCount (List.mem_range.1 hi)
    exact captureMinimal_of_valid halive rfl hec hlt hvalid (rawLocs i) slot
  · intro i hi hvalid slot
    obtain ⟨halive, hlt⟩ := alive_of_lt_frameCount (List.mem_range.1 hi)
    exact captureMinimal_of_not_valid halive rfl hec hlt hvalid (rawLocs i) slot

/-- **The loop is the same with raw and with minimal locations.** For every thread, dead or alive,
and whatever the two arrays hold before, both loops end, with the same number of slots filled: the
valid frames of the stack, in their order. The other slots are as they were. Each minimal record
answers as the raw location in the same slot, with the line number as a word of 32 bits. -/
theorem usage_loops_agree (rt : Runtime) (thread : VALUE)
    (hec : (rt.threadAt thread).ec.Lawful rt.toVM) (rawLocs : ℕ → RawLocation)
    (locs : List RawLocation) (minLocs : List MinimalLocation)
    (hlocs : frameCountForThread rt.toVM thread ≤ locs.length)
    (hminLocs : frameCountForThread rt.toVM thread ≤ minLocs.length) :
    ∃ locs' minLocs',
      let frames := validFrames rt (rt.threadAt thread).ec 0 (frameCountForThread rt.toVM thread)
      (captureFrames rt thread locs).result = .ok (locs', frames.length) ∧
      (captureMinimalFrames rt rawLocs thread minLocs).result = .ok (minLocs', frames.length) ∧
      (∀ j, j < frames.length → locs'[j]? = frames[j]? ∧
        ∃ loc minLoc, locs'[j]? = some loc ∧ minLocs'[j]? = some minLoc ∧
          AnswersAs rt loc minLoc) ∧
      ∀ j, frames.length ≤ j → locs'[j]? = locs[j]? ∧ minLocs'[j]? = minLocs[j]? := by
  obtain ⟨locs', hrun, hfilled⟩ := captureFrames_spec hec hlocs
  obtain ⟨minLocs', hminRun, hminFilled⟩ := captureMinimalFrames_spec hec rawLocs hminLocs
  have hframes : validFrames rt (rt.threadAt thread).ec 0 (frameCountForThread rt.toVM thread) =
      (validIndices rt thread).map (rawLocationAt rt (rt.threadAt thread).ec) := by
    rw [validFrames, validIndices, ← List.range_eq_range']
  refine ⟨locs', minLocs', ?_⟩
  simp only [hframes, List.length_map]
  refine ⟨hrun, hminRun, fun j hj => ?_, fun j hj => ⟨hfilled.rest j hj, hminFilled.rest j hj⟩⟩
  have hget := List.getElem?_eq_getElem hj
  obtain ⟨loc, hloc, rfl⟩ := hfilled.filled j _ hget
  obtain ⟨minLoc, hminLoc, hanswers⟩ := hminFilled.filled j _ hget
  rw [List.getElem?_map, hget]
  exact ⟨hloc, _, minLoc, hloc, hminLoc, hanswers⟩

/-- The loops over two arrays of three slots, for a stack with one frame that does not count. -/
theorem usage_loops_agree_bootThread :
    ∃ locs' minLocs',
      (captureFrames (bootRuntime (bootThread false [cFrame 48, dummyFrame, rubyFrame 48])) 96
        (List.replicate 3 RawLocation.zeroed)).result = .ok (locs', 2) ∧
      (captureMinimalFrames (bootRuntime (bootThread false [cFrame 48, dummyFrame, rubyFrame 48]))
        (fun _ => RawLocation.zeroed) 96 (List.replicate 3 MinimalLocation.zeroed)).result =
        .ok (minLocs', 2) := by
  obtain ⟨locs', minLocs', hrun, hminRun, -⟩ := usage_loops_agree
    (bootRuntime (bootThread false [cFrame 48, dummyFrame, rubyFrame 48])) 96
    (stackOf_lawful fun frame hframe => by
      simp only [List.mem_cons, List.not_mem_nil, or_false] at hframe
      rcases hframe with rfl | rfl | rfl
      · exact cFrame_lawful _ 48
      · exact dummyFrame_lawful _
      · exact rubyFrame_lawful _ 48) (fun _ => RawLocation.zeroed)
    (List.replicate 3 RawLocation.zeroed) (List.replicate 3 MinimalLocation.zeroed)
    (le_of_eq rfl) (le_of_eq rfl)
  exact ⟨locs', minLocs', hrun, hminRun⟩

end Backtracie
