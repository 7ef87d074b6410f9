import Backtracie.CallerLocations

/-!
# Skipping frames

`collect_backtrace_locations` can leave out frames at the top of the stack. It skips them before
they are captured, so that they are neither tested nor located. This is the same as to drop their
locations afterwards (`skip_is_drop`): each location depends on its own frame and on those below
it, not on the index or on what was in memory.

On old versions of Ruby `Backtracie.caller_locations` does the latter, for the running thread.
-/

namespace Backtracie

open CMem Traced Nearest

/-! ## One location -/

section

variable {rt : Runtime} {junk junk' : ℕ → UInt8} {depth depth' : ℕ}
  {minLoc minLoc' : MinimalLocation} {frames : List RawLocation} {loc : RawLocation}
  {location location' : Location} {pos pos' : SourcePosition} {i i' j j' v : ℕ}
  {ary ary' : List (Option Location)}

theorem Location.eq_of_position (hposition : location.position = location'.position)
    (hlabel : location.label = location'.label) (hbase : location.baseLabel = location'.baseLabel)
    (hname : location.qualifiedMethodName = location'.qualifiedMethodName)
    (hdebug : location.debug = location'.debug) : location = location' := by
  cases location
  cases location'
  simp_all [Location.position]

/-- What is returned whatever the heap held is returned on every heap. -/
theorem eq_of_returns {α : Type} {run : (ℕ → UInt8) → Comp α} {a b s : α}
    (hs : ∀ junk, (run junk).result = .ok s) (h : (run junk).result = .ok a)
    (h' : (run junk').result = .ok b) : a = b := by
  have ha : s = a := Except.ok.inj ((hs junk).symm.trans h)
  have hb : s = b := Except.ok.inj ((hs junk').symm.trans h')
  exact ha.symm.trans hb

variable (hrt : rt.toVM.Lawful)

include hrt

/-- The position of a Ruby frame depends on the slot it is seen from only in whether that is its
own. -/
theorem PositionOf.unique (hloc : Captured rt loc) (hown : i = j ↔ i' = j')
    (h : PositionOf junk rt loc i j pos) (h' : PositionOf junk' rt loc i' j' pos') :
    pos = pos' := by
  obtain ⟨frame, hlawful, -, rfl⟩ := hloc
  obtain ⟨abs, habs⟩ := frameFilename_returns hrt hlawful.toProper true
  obtain ⟨rel, hrel⟩ := frameFilename_returns hrt hlawful.toProper false
  obtain ⟨lineno, hlineno, hline⟩ := h.lineNumber
  obtain ⟨lineno', hlineno', hline'⟩ := h'.lineNumber
  obtain rfl := Except.ok.inj (hlineno.symm.trans hlineno')
  have hfilenameAbs : pos.filenameAbs = pos'.filenameAbs :=
    eq_of_returns habs h.filenameAbs h'.filenameAbs
  have hfilenameRel : pos.filenameRel = pos'.filenameRel :=
    eq_of_returns hrel h.filenameRel h'.filenameRel
  have hsynthetic : pos.pathIsSynthetic = pos'.pathIsSynthetic := by
    rw [h.pathIsSynthetic, h'.pathIsSynthetic]
    exact decide_eq_decide.2 (not_congr hown)
  cases pos
  cases pos'
  simp_all

/-- A position is the same when frames above it are dropped. -/
theorem LocationOf.position_drop (hframes : ∀ loc ∈ frames, Captured rt loc)
    (h : LocationOf junk rt depth minLoc frames (v + i) location)
    (h' : LocationOf junk' rt depth' minLoc' (frames.drop v) i location') :
    location.position = location'.position := by
  rcases hnearest : nearest RawLocation.isRubyFrame (frames.drop v) i with _ | j
  · rw [h'.native fun j loc hj hget => nearest_eq_none hnearest hj hget]
    apply h.native
    intro j loc hj hget
    refine nearest_eq_none hnearest (m := j - v) (by omega) ?_
    rwa [List.getElem?_drop, Nat.add_sub_cancel' (by omega)]
  · obtain ⟨hij, ⟨loc, hget, hruby⟩, hbetween⟩ := nearest_eq_some hnearest
    have hget' : frames[v + j]? = some loc := by
      rwa [List.getElem?_drop] at hget
    have hown : v + i = v + j ↔ i = j := by omega
    refine PositionOf.unique hrt (hframes _ (List.mem_of_getElem? hget')) hown
      (h.ruby (v + j) loc (by omega) hget' hruby fun m loc' hm hlt hget'' => ?_)
      (h'.ruby j loc hij hget hruby fun m loc' hm hlt hget'' => hbetween m hm hlt loc' hget'')
    refine hbetween (m - v) (by omega) (by omega) loc' ?_
    rwa [List.getElem?_drop, Nat.add_sub_cancel' (by omega)]

theorem DescribesFrame.label_unique (hloc : Captured rt loc)
    (h : DescribesFrame junk rt depth minLoc loc location)
    (h' : DescribesFrame junk' rt depth' minLoc' loc location') :
    location.label = location'.label ∧ location.baseLabel = location'.baseLabel := by
  obtain ⟨label, hlabel⟩ := frameLabel_ok hrt hloc false
  obtain ⟨base, hbase⟩ := frameLabel_ok hrt hloc true
  exact ⟨eq_of_returns hlabel h.label h'.label, eq_of_returns hbase h.baseLabel h'.baseLabel⟩

/-- **The location of a frame** is the same when frames above it are dropped. -/
theorem LocationOf.eq_of_drop (hframes : ∀ loc ∈ frames, Captured rt loc)
    (hnames : ∀ loc ∈ frames, ∃ s, (frameNameRbstr junk rt depth minLoc loc).result = .ok s ∧
      (frameNameRbstr junk' rt depth' minLoc' loc).result = .ok s)
    (h : LocationOf junk rt depth minLoc frames (v + i) location)
    (h' : LocationOf junk' rt depth' minLoc' (frames.drop v) i location') :
    location = location' := by
  obtain ⟨loc, hget, hdescribes⟩ := h.own
  obtain ⟨loc', hget', hdescribes'⟩ := h'.own
  rw [List.getElem?_drop] at hget'
  obtain rfl := Option.some.inj (hget.symm.trans hget')
  have hmem : loc ∈ frames := List.mem_of_getElem? hget
  obtain ⟨hlabel, hbase⟩ := hdescribes.label_unique hrt (hframes loc hmem) hdescribes'
  obtain ⟨s, hs, hs'⟩ := hnames loc hmem
  apply Location.eq_of_position (h.position_drop hrt hframes h') hlabel hbase
  · have hname := Except.ok.inj (hdescribes.name.symm.trans hs)
    have hname' := Except.ok.inj (hdescribes'.name.symm.trans hs')
    exact hname.trans hname'.symm
  · exact Except.ok.inj (hdescribes.debug.symm.trans hdescribes'.debug)

/-- **The locations of frames**, some of which are dropped before or after. -/
theorem LocatesFrames.drop_eq (hframes : ∀ loc ∈ frames, Captured rt loc)
    (hnames : ∀ loc ∈ frames, ∃ s, (frameNameRbstr junk rt depth minLoc loc).result = .ok s ∧
      (frameNameRbstr junk' rt depth' minLoc' loc).result = .ok s)
    (h : LocatesFrames junk rt depth minLoc frames ary)
    (h' : LocatesFrames junk' rt depth' minLoc' (frames.drop v) ary') : ary' = ary.drop v := by
  have hlen : ary'.length = ary.length - v := by
    rw [h'.length, List.length_drop, h.length]
  apply List.ext_getElem?
  intro i
  rw [List.getElem?_drop]
  by_cases hi : i < ary'.length
  · obtain ⟨location', hget', hlocation'⟩ := h'.located i (h'.length ▸ hi)
    obtain ⟨location, hget, hlocation⟩ := h.located (v + i) (by rw [← h.length]; omega)
    rw [hget, hget', hlocation.eq_of_drop hrt hframes hnames hlocation']
  · rw [List.getElem?_eq_none (by omega), List.getElem?_eq_none (by omega)]

end

/-! ## The frames that are skipped -/

/-- The number of valid frames among the first `k` of the stack. -/
def validBelow (rt : Runtime) (ec : ExecutionContext) (k : ℕ) : ℕ :=
  (List.range (min k (stackDepth ec))).countP (isValidAt rt.toVM ec)

section

variable {rt : Runtime} {ec : ExecutionContext} {k m n : ℕ}

theorem validFrames_append :
    validFrames rt ec k (m + n) = validFrames rt ec k m ++ validFrames rt ec (k + m) n := by
  unfold validFrames
  rw [← List.map_append, ← List.filter_append, ← List.range'_append_1]

theorem length_validFrames_zero :
    (validFrames rt ec 0 n).length = (List.range n).countP (isValidAt rt.toVM ec) := by
  rw [validFrames, List.length_map, ← List.range_eq_range', List.countP_eq_length_filter]

/-- The frames captured from the top are the valid ones among the first `k`, and those captured from
frame `k` on. -/
theorem capturedFrames_split : capturedFrames rt ec 0 =
    validFrames rt ec 0 (min k (stackDepth ec)) ++ capturedFrames rt ec k := by
  rcases Nat.le_total k (stackDepth ec) with hle | hle
  · obtain ⟨n, hn⟩ := Nat.exists_eq_add_of_le hle
    rw [Nat.min_eq_left hle, capturedFrames, capturedFrames, hn, Nat.sub_zero, validFrames_append,
      Nat.zero_add, Nat.add_sub_cancel_left]
  · rw [Nat.min_eq_right hle, capturedFrames, capturedFrames, Nat.sub_eq_zero_of_le hle]
    exact (List.append_nil _).symm

theorem capturedFrames_eq_drop :
    capturedFrames rt ec k = (capturedFrames rt ec 0).drop (validBelow rt ec k) := by
  rw [@capturedFrames_split rt ec k, validBelow, ← length_validFrames_zero, List.drop_left]

theorem validBelow_le : validBelow rt ec k ≤ (capturedFrames rt ec 0).length := by
  rw [@capturedFrames_split rt ec k, validBelow, ← length_validFrames_zero, List.length_append]
  exact Nat.le_add_right _ _

/-- With the first three frames valid, three are skipped. -/
theorem validBelow_three (hdepth : 3 ≤ stackDepth ec)
    (hvalid : ∀ i, i < 3 → isValidAt rt.toVM ec i = true) : validBelow rt ec 3 = 3 := by
  rw [validBelow, Nat.min_eq_left hdepth, List.countP_eq_length.2, List.length_range]
  intro i hi
  exact hvalid i (List.mem_range.1 hi)

end

/-! ## The runs -/

/-- `ary[start..-1]`: `none`, for `nil`, if the array ends before. -/
def sliceFrom {α : Type} (ary : List α) (start : ℕ) : Option (List α) :=
  if ary.length < start then none else some (ary.drop start)

/-- `Backtracie.caller_locations` on Ruby before 2.5. -/
def callerLocationsFallback (junk : ℕ → UInt8) (rt : Runtime) (depth : ℕ)
    (minLoc : MinimalLocation) : Collect (Option (List (Option Location))) := do
  match ← primitiveBacktraceLocations junk rt depth minLoc rt.rbThreadCurrent with
  | some ary => pure (sliceFrom ary 3)
  | none => fault (.abort "undefined method [] for nil")

section

variable {rt : Runtime} {thread : VALUE} {ec : ExecutionContext}

theorem threadOrCurrent_current : threadOrCurrent rt rt.rbThreadCurrent = rt.rbThreadCurrent := by
  unfold threadOrCurrent
  split <;> rfl

theorem collect_skips (hrt : rt.toVM.Lawful) (hec : ec.Lawful rt.toVM)
    (halive : isThreadAlive rt.toVM (threadOrCurrent rt thread))
    (hthread : (rt.threadAt (threadOrCurrent rt thread)).ec = ec) (k : ℕ) :
    ∃ N, ∀ depth depth', N ≤ depth → N ≤ depth' → ∀ junk junk' minLoc minLoc', ∃ ary,
      (collectBacktraceLocations junk rt depth minLoc thread 0).result = .ok (some ary) ∧
      (collectBacktraceLocations junk' rt depth' minLoc' thread k).result =
        .ok (some (ary.drop (validBelow rt ec k))) ∧
      validBelow rt ec k ≤ ary.length := by
  have hframes := capturedFrames_captured (k := 0) hec
  obtain ⟨N₁, hN₁⟩ := collect_alive hrt hec halive hthread 0
  obtain ⟨N₂, hN₂⟩ := collect_alive hrt hec halive hthread k
  obtain ⟨N₃, hN₃⟩ := frameName_uniform hrt hframes
  refine ⟨N₁ + N₂ + N₃, fun depth depth' hdepth hdepth' junk junk' minLoc minLoc' => ?_⟩
  obtain ⟨tr, ary, hrun, -, hlocates⟩ := hN₁ depth (by omega) junk minLoc
  obtain ⟨tr', ary', hrun', -, hlocates'⟩ := hN₂ depth' (by omega) junk' minLoc'
  rw [capturedFrames_eq_drop] at hlocates'
  have hnames : ∀ loc ∈ capturedFrames rt ec 0, ∃ s,
      (frameNameRbstr junk rt depth minLoc loc).result = .ok s ∧
      (frameNameRbstr junk' rt depth' minLoc' loc).result = .ok s := by
    intro loc hloc
    obtain ⟨s, hs⟩ := hN₃ loc hloc
    exact ⟨s, hs depth (by omega) junk minLoc, hs depth' (by omega) junk' minLoc'⟩
  refine ⟨ary, hrun.result, ?_, ?_⟩
  · rw [hrun'.result, LocatesFrames.drop_eq hrt hframes hnames hlocates hlocates']
  · rw [hlocates.length]
    exact validBelow_le

/-- The fallback for old versions of Ruby, where the first three frames are valid. -/
theorem fallback_eq (hrt : rt.toVM.Lawful) (hec : ec.Lawful rt.toVM)
    (halive : isThreadAlive rt.toVM rt.rbThreadCurrent)
    (hthread : (rt.threadAt rt.rbThreadCurrent).ec = ec) (hdepth : 3 ≤ stackDepth ec)
    (hvalid : ∀ i, i < 3 → isValidAt rt.toVM ec i = true) :
    ∃ N, ∀ depth depth', N ≤ depth → N ≤ depth' → ∀ junk junk' minLoc minLoc', ∃ ary,
      (primitiveCallerLocations junk rt depth minLoc).result = .ok (some ary) ∧
      (callerLocationsFallback junk' rt depth' minLoc').result = .ok (some ary) := by
  have hskips := @collect_skips rt rt.rbThreadCurrent ec hrt hec
  rw [threadOrCurrent_current] at hskips
  obtain ⟨N, hN⟩ := hskips halive hthread 3
  refine ⟨N, fun depth depth' hd hd' junk junk' minLoc minLoc' => ?_⟩
  obtain ⟨ary, htop, hskipped, hle⟩ := hN depth' depth hd' hd junk' junk minLoc' minLoc
  rw [validBelow_three hdepth hvalid] at hskipped hle
  refine ⟨ary.drop 3, ?_, ?_⟩
  · have hcurrent : primitiveCallerLocations junk rt depth minLoc =
        collectBacktraceLocations junk rt depth minLoc rt.rbThreadCurrent 3 := by
      unfold primitiveCallerLocations collectBacktraceLocations
      simp only [threadOrCurrent_nil, threadOrCurrent_current]
    rw [hcurrent, hskipped]
  · unfold callerLocationsFallback
    rw [primitiveBacktraceLocations, result_bind htop]
    show Except.ok (sliceFrom ary 3) = _
    rw [sliceFrom, if_neg (by omega)]

end

/-- **To skip frames at capture is to drop their locations.** The backtrace of a live thread from
frame `k` on is that from the top without the locations of the valid frames among the first `k`.
So where the first three frames are valid, `caller_locations` returns the same in both versions. -/
theorem skip_is_drop (rt : Runtime) (hrt : rt.toVM.Lawful) :
    (∀ thread ec k, isThreadAlive rt.toVM (threadOrCurrent rt thread) →
      (rt.threadAt (threadOrCurrent rt thread)).ec = ec → ec.Lawful rt.toVM →
      ∃ N, ∀ depth depth', N ≤ depth → N ≤ depth' → ∀ junk junk' minLoc minLoc', ∃ ary,
        (collectBacktraceLocations junk rt depth minLoc thread 0).result = .ok (some ary) ∧
        (collectBacktraceLocations junk' rt depth' minLoc' thread k).result =
          .ok (some (ary.drop (validBelow rt ec k)))) ∧
    ∀ ec, isThreadAlive rt.toVM rt.rbThreadCurrent → (rt.threadAt rt.rbThreadCurrent).ec = ec →
      ec.Lawful rt.toVM → 3 ≤ stackDepth ec → (∀ i, i < 3 → isValidAt rt.toVM ec i = true) →
      ∃ N, ∀ depth depth', N ≤ depth → N ≤ depth' → ∀ junk junk' minLoc minLoc', ∃ ary,
        (primitiveCallerLocations junk rt depth minLoc).result = .ok (some ary) ∧
        (callerLocationsFallback junk' rt depth' minLoc').result = .ok (some ary) := by
  constructor
  · intro thread ec k halive hthread hec
    obtain ⟨N, hN⟩ := collect_skips hrt hec halive hthread k
    refine ⟨N, fun depth depth' hd hd' junk junk' minLoc minLoc' => ?_⟩
    obtain ⟨ary, htop, hskipped, -⟩ := hN depth depth' hd hd' junk junk' minLoc minLoc'
    exact ⟨ary, htop, hskipped⟩
  · intro ec halive hthread hec hdepth hvalid
    exact fallback_eq hrt hec halive hthread hdepth hvalid

/-- A thread that is at a C function, called from two frames of a method: the caller of the two is
what is left. -/
theorem skip_is_drop_bootThread :
    ∃ depth ary,
      (primitiveCallerLocations (fun _ => 0)
        (bootRuntime (bootThread false [cFrame 32, rubyFrame 32, rubyFrame 48, rubyFrame 80]))
        depth MinimalLocation.zeroed).result = .ok (some ary) ∧
      (callerLocationsFallback (fun _ => 1)
        (bootRuntime (bootThread false [cFrame 32, rubyFrame 32, rubyFrame 48, rubyFrame 80]))
        depth MinimalLocation.zeroed).result = .ok (some ary) := by
  obtain ⟨-, hfallback⟩ := skip_is_drop
    (bootRuntime (bootThread false [cFrame 32, rubyFrame 32, rubyFrame 48, rubyFrame 80]))
    (bootVM_lawful _)
  obtain ⟨N, hN⟩ := hfallback _ (bootThread_alive _) rfl (stackOf_lawful fun frame hframe => by
      simp only [List.mem_cons, List.not_mem_nil, or_false] at hframe
      rcases hframe with rfl | rfl | rfl | rfl
      · exact cFrame_lawful _ 32
      · exact rubyFrame_lawful _ 32
      · exact rubyFrame_lawful _ 48
      · exact rubyFrame_lawful _ 80)
    (by decide) (by decide)
  obtain ⟨ary, hary, hfallback⟩ :=
    hN N N le_rfl le_rfl (fun _ => 0) (fun _ => 1) MinimalLocation.zeroed MinimalLocation.zeroed
  exact ⟨N, ary, hary, hfallback⟩

end Backtracie
