import Backtracie.Locations

/-!
# Line numbers

The line of a frame is read in three ways: from the raw location, as an `int`; from the location
made of it for Ruby; and from the minimal record, which keeps it in a `uint32_t`. The first two
agree. `line_numbers_iff`: all three agree, for every captured frame, exactly when the line of a
Ruby frame is not negative and other frames have no `pc`.
-/

namespace Backtracie

open CMem Traced

section

variable (rt : Runtime)

/-- The same VM with nothing where iseqs were: to read one is a fault. -/
def withoutIseqs : Runtime := { rt with iseqAt := fun _ => none }

/-- The position in the iseq of the instruction that a `pc` comes after. -/
def instructionPos (iseq : Iseq) (pc : ℕ) : ℕ :=
  if pc - iseq.iseqEncoded ≠ 0 then pc - iseq.iseqEncoded - 1 else pc - iseq.iseqEncoded

/-- The three line numbers agree. For a frame that is not a Ruby frame they are 0, and no iseq is
read. -/
structure LineNumbersAgree (loc : RawLocation) : Prop where
  minimal : ∀ before, ∃ minLoc lineno, rawLocationToMinimalLocation rt loc before = .ok minLoc ∧
    frameLineNumber rt loc = .ok lineno ∧ (minLoc.lineNumber.toNat : ℤ) = lineno.toInt
  location : loc.isRubyFrame = true → ∃ N, ∀ depth, N ≤ depth → ∀ junk minLoc slots i,
    slots[i]? = some loc → ∃ location lineno,
      (frameToLocation junk rt depth minLoc slots i (some i)).result = .ok location ∧
      frameLineNumber rt loc = .ok lineno ∧ location.lineno = lineno.toInt
  native : loc.isRubyFrame = false →
    frameLineNumber rt loc = .ok 0 ∧ frameLineNumber (withoutIseqs rt) loc = .ok 0 ∧
    ∀ before, ∃ minLoc, rawLocationToMinimalLocation rt loc before = .ok minLoc ∧
      rawLocationToMinimalLocation (withoutIseqs rt) loc before = .ok minLoc ∧
      minLoc.lineNumber = 0

/-- The line of a Ruby frame is not negative; other frames have no `pc`. -/
def LineNumberFits (frame : ControlFrame) : Prop :=
  if frame.rubyframeP then
    ∀ iseq, rt.iseqAt frame.iseq = some iseq →
      0 ≤ (rt.rbIseqLineNo frame.iseq (instructionPos iseq frame.pc)).toInt
  else frame.pc = 0

end

variable {rt : Runtime} {frame : ControlFrame} {loc : RawLocation}
  {before m m' minLoc : MinimalLocation}

/-- An `int` that is kept in a `uint32_t`. -/
theorem toNat_eq_toInt_iff (x : BitVec 32) : (x.toNat : ℤ) = x.toInt ↔ 0 ≤ x.toInt := by
  have hlt : x.toNat < 2 ^ 32 := x.isLt
  rw [BitVec.toInt_eq_toNat_cond]
  split <;> omega

/-! ## The line of a minimal record -/

theorem fillMethodQualifier_lineNumber (h : fillMethodQualifier rt loc m = .ok m') :
    m'.lineNumber = m.lineNumber := by
  unfold fillMethodQualifier at h
  split at h
  · cases h
    rfl
  · split at h
    · obtain ⟨cme, -, h⟩ := except_bind_ok h
      cases h
      rfl
    · cases h
      rfl

/-- The line that `raw_location_to_minimal_location` stores. -/
theorem minimal_lineNumber (h : rawLocationToMinimalLocation rt loc before = .ok minLoc) :
    if rtest loc.iseq then calcLineno rt loc.iseq loc.pc = .ok minLoc.lineNumber
    else minLoc.lineNumber = 0 := by
  obtain ⟨m, -, h⟩ := except_bind_ok h
  obtain ⟨m', hiseq, h⟩ := except_bind_ok h
  rw [fillMethodQualifier_lineNumber h]
  unfold fillIseqType at hiseq
  by_cases htest : rtest loc.iseq
  · rw [if_pos htest] at hiseq ⊢
    obtain ⟨iseq, -, hiseq⟩ := except_bind_ok hiseq
    obtain ⟨lineno, hlineno, hiseq⟩ := except_bind_ok hiseq
    cases hiseq
    exact hlineno
  · rw [if_neg htest] at hiseq ⊢
    cases hiseq
    rfl

/-- For a location without an iseq none is read. -/
theorem toMinimalLocation_withoutIseqs (h : ¬rtest loc.iseq) :
    rawLocationToMinimalLocation (withoutIseqs rt) loc before =
      rawLocationToMinimalLocation rt loc before := by
  unfold rawLocationToMinimalLocation fillMethodName fillIseqType
  simp only [h, if_false]
  rfl

/-! ## The two kinds of frames -/

/-- The line of a valid Ruby frame is that of the instruction it is at. -/
theorem calcLineno_rubyframe (h : frame.Lawful rt.toVM)
    (hvalid : isValidFrame rt.toVM frame = .ok true) (hruby : frame.rubyframeP = true) :
    ∃ iseq, rtest frame.iseq ∧ rt.iseqAt frame.iseq = some iseq ∧
      calcLineno rt frame.iseq frame.pc =
        .ok (rt.rbIseqLineNo frame.iseq (instructionPos iseq frame.pc)) := by
  rcases frameIseq_cases h.toProper with ⟨-, h0, -⟩ | ⟨iseq, htest, hne, hiseq, -⟩
  · exact absurd h0 (h.rubyframe_iseq hruby)
  · have hpc : frame.pc ≠ 0 := by
      intro hpc
      rw [isValidFrame, if_pos ⟨hne, hpc⟩] at hvalid
      cases hvalid
    refine ⟨iseq, htest, hiseq, ?_⟩
    rw [calcLineno, if_neg hpc, VM.derefIseq_of_some hiseq]
    rfl

/-- A valid frame without a `pc` has no iseq either. -/
theorem iseq_of_pc (hvalid : isValidFrame rt.toVM frame = .ok true) (hpc : frame.pc = 0) :
    frame.iseq = 0 := by
  by_contra hne
  rw [isValidFrame, if_pos ⟨hne, hpc⟩] at hvalid
  cases hvalid

theorem location_lineno (hrt : rt.toVM.Lawful) (hframe : Captured rt loc)
    (hruby : loc.isRubyFrame = true) :
    ∃ N, ∀ depth, N ≤ depth → ∀ junk minLoc slots i, slots[i]? = some loc → ∃ location lineno,
      (frameToLocation junk rt depth minLoc slots i (some i)).result = .ok location ∧
      frameLineNumber rt loc = .ok lineno ∧ location.lineno = lineno.toInt := by
  obtain ⟨frame, hlawful, hvalid, hloc⟩ := id hframe
  obtain ⟨s, N, hN⟩ := frameName_returns hrt hlawful hvalid
  rw [← hloc] at hN
  refine ⟨N, fun depth hdepth junk minLoc slots i hget => ?_⟩
  obtain ⟨pos, hpos, hposition⟩ := sourcePosition_some hrt junk i hget hframe hruby
  obtain ⟨location, hlocation, -, rfl⟩ := frameToLocation_of_position hrt hpos hget hframe
    ⟨s, hN depth hdepth junk minLoc⟩
  obtain ⟨lineno, hlineno, hline⟩ := hposition.lineNumber
  exact ⟨location, lineno, hlocation, hlineno, hline⟩

theorem lineNumbers_rubyframe (hrt : rt.toVM.Lawful) (h : frame.Lawful rt.toVM)
    (hvalid : isValidFrame rt.toVM frame = .ok true) (hruby : frame.rubyframeP = true) :
    LineNumbersAgree rt (locationOfFrame rt frame) ↔ LineNumberFits rt frame := by
  obtain ⟨iseq, htest, hiseq, hlineno⟩ := calcLineno_rubyframe h hvalid hruby
  have hstored : ∀ before, ∃ minLoc,
      rawLocationToMinimalLocation rt (locationOfFrame rt frame) before = .ok minLoc ∧
      minLoc.lineNumber = rt.rbIseqLineNo frame.iseq (instructionPos iseq frame.pc) := by
    intro before
    obtain ⟨minLoc, hmin, -⟩ := toMinimalLocation_minimizes h.toProper before
    have hline := minimal_lineNumber hmin
    rw [if_pos (show rtest (locationOfFrame rt frame).iseq from htest)] at hline
    exact ⟨minLoc, hmin, Except.ok.inj (hline.symm.trans hlineno)⟩
  rw [LineNumberFits, if_pos hruby]
  constructor
  · intro hagree iseq' hiseq'
    obtain rfl := Option.some.inj (hiseq.symm.trans hiseq')
    obtain ⟨minLoc, hmin, hline⟩ := hstored MinimalLocation.zeroed
    obtain ⟨minLoc', lineno, hmin', hraw, heq⟩ := hagree.minimal MinimalLocation.zeroed
    obtain rfl := Except.ok.inj (hmin.symm.trans hmin')
    obtain rfl := Except.ok.inj (hlineno.symm.trans hraw)
    rw [hline] at heq
    exact (toNat_eq_toInt_iff _).1 heq
  · intro hfits
    refine ⟨fun before => ?_, location_lineno hrt ⟨frame, h, hvalid, rfl⟩, fun hnative => ?_⟩
    · obtain ⟨minLoc, hmin, hline⟩ := hstored before
      refine ⟨minLoc, _, hmin, hlineno, ?_⟩
      rw [hline]
      exact (toNat_eq_toInt_iff _).2 (hfits iseq hiseq)
    · rw [show frame.rubyframeP = false from hnative] at hruby
      cases hruby

theorem lineNumbers_native (h : frame.Proper rt.toVM)
    (hvalid : isValidFrame rt.toVM frame = .ok true) (hruby : frame.rubyframeP = false) :
    LineNumbersAgree rt (locationOfFrame rt frame) ↔ LineNumberFits rt frame := by
  rw [LineNumberFits, if_neg (by rw [hruby]; exact Bool.false_ne_true)]
  constructor
  · intro hagree
    by_contra hpc
    obtain ⟨-, hnone, -⟩ := hagree.native hruby
    have hpc' : ¬(locationOfFrame rt frame).pc = 0 := hpc
    rw [frameLineNumber, calcLineno, if_neg hpc'] at hnone
    cases hnone
  · intro hpc
    have hiseq : ¬rtest (locationOfFrame rt frame).iseq :=
      not_rtest_of_zero (iseq_of_pc hvalid hpc)
    have hzero : ∀ rt', frameLineNumber rt' (locationOfFrame rt frame) = .ok 0 :=
      fun rt' => if_pos hpc
    have hstored : ∀ before, ∃ minLoc,
        rawLocationToMinimalLocation rt (locationOfFrame rt frame) before = .ok minLoc ∧
        minLoc.lineNumber = 0 := by
      intro before
      obtain ⟨minLoc, hmin, -⟩ := toMinimalLocation_minimizes h before
      have hline := minimal_lineNumber hmin
      rw [if_neg hiseq] at hline
      exact ⟨minLoc, hmin, hline⟩
    refine ⟨fun before => ?_, fun hnative => ?_, fun _ => ⟨hzero rt, hzero _, fun before => ?_⟩⟩
    · obtain ⟨minLoc, hmin, hline⟩ := hstored before
      refine ⟨minLoc, 0, hmin, hzero rt, ?_⟩
      rw [hline]
      rfl
    · rw [show frame.rubyframeP = true from hnative] at hruby
      cases hruby
    · obtain ⟨minLoc, hmin, hline⟩ := hstored before
      exact ⟨minLoc, hmin, (toMinimalLocation_withoutIseqs hiseq).trans hmin, hline⟩

/-! ## Every captured frame -/

/-- **The line numbers of a captured frame agree** if and only if that of a Ruby frame is not
negative, and other frames have no `pc`. -/
theorem line_numbers_iff (rt : Runtime) (hrt : rt.toVM.Lawful) (ec : ExecutionContext) (i : ℕ)
    (loc rawLoc : RawLocation) (hframe : (ec.frameAt (ec.cfp + i)).Lawful rt.toVM)
    (hcapture : captureFrameForExecutionContext rt ec i loc = .ok (true, rawLoc)) :
    LineNumbersAgree rt rawLoc ↔ LineNumberFits rt (ec.frameAt (ec.cfp + i)) := by
  obtain ⟨-, hvalid, hloc⟩ := capture_ok hcapture
  obtain rfl : rawLoc = locationOfFrame rt (ec.frameAt (ec.cfp + i)) := hloc
  cases hruby : (ec.frameAt (ec.cfp + i)).rubyframeP with
  | true => exact lineNumbers_rubyframe hrt hframe hvalid hruby
  | false => exact lineNumbers_native hframe.toProper hvalid hruby

/-- A frame in line 1. -/
theorem line_numbers_iff_rubyFrame :
    LineNumbersAgree (bootRuntime (bootThread false [rubyFrame 48]))
      (locationOfFrame (bootRuntime (bootThread false [rubyFrame 48])) (rubyFrame 48)) := by
  refine (line_numbers_iff (bootRuntime (bootThread false [rubyFrame 48])) (bootVM_lawful _)
    (stackOf [rubyFrame 48]) 0 RawLocation.zeroed _ (rubyFrame_lawful _ 48) rfl).2 ?_
  rintro iseq hiseq
  cases hiseq
  decide

/-- The VM of `bootVM`, with all code in line `-1`, as after an eval with that line. -/
def minusOneRuntime : Runtime :=
  { toVM := { bootVM (bootThread false [rubyFrame 48]) with
      rbIseqLineNo := fun _ _ => BitVec.ofInt 32 (-1) }
    mainObjectInstance := 48 }

theorem minusOneRuntime_lawful : minusOneRuntime.toVM.Lawful :=
  (bootVM_lawful _).withContents (bootVM (bootThread false [rubyFrame 48])).rstring
    fun _ _ => BitVec.ofInt 32 (-1)

/-- **A negative line number** becomes a large one in the minimal record. -/
theorem line_minus_one :
    minusOneRuntime.toVM.Lawful ∧ (rubyFrame 48).Lawful minusOneRuntime.toVM ∧
    captureFrameForExecutionContext minusOneRuntime (stackOf [rubyFrame 48]) 0 RawLocation.zeroed =
      .ok (true, locationOfFrame minusOneRuntime (rubyFrame 48)) ∧
    frameLineNumber minusOneRuntime (locationOfFrame minusOneRuntime (rubyFrame 48)) =
      .ok (BitVec.ofInt 32 (-1)) ∧
    (∃ minLoc, rawLocationToMinimalLocation minusOneRuntime
        (locationOfFrame minusOneRuntime (rubyFrame 48)) MinimalLocation.zeroed = .ok minLoc ∧
      minLoc.lineNumber.toNat = 4294967295) ∧
    ¬LineNumbersAgree minusOneRuntime (locationOfFrame minusOneRuntime (rubyFrame 48)) := by
  have hframe : (rubyFrame 48).Lawful minusOneRuntime.toVM :=
    ⟨⟨.inr ⟨show rtest 56 by decide, rfl⟩, .inr ⟨show rtest 64 by decide, rfl⟩⟩,
      fun _ => show 56 ≠ 0 by decide⟩
  refine ⟨minusOneRuntime_lawful, hframe, rfl, rfl, ⟨_, rfl, rfl⟩, fun hagree => ?_⟩
  have hfits := (lineNumbers_rubyframe minusOneRuntime_lawful hframe rfl rfl).1 hagree
  exact absurd (hfits _ rfl) (by decide)

end Backtracie
