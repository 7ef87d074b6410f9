import Backtracie.Locations

/-!
# What a backtrace consists of

The first loop of `collect_backtrace_locations`, by its invariant: the slots below the length hold
the locations of the valid frames captured so far, in their order (`captureLoop_spec`). With the
second loop this makes the backtrace of a thread.

* `collect_dead`, `collect_alive`: the backtrace of a dead and of a live thread;
* `backtrace_exact`: both, with the bound of the count.
-/

namespace Backtracie

open CMem Traced

/-! ## The frames of a thread -/

section

/-- Frame `i` of the stack passes the validity test. -/
def isValidAt (vm : VM) (ec : ExecutionContext) (i : ℕ) : Bool :=
  match isValidFrame vm (ec.frameAt (ec.cfp + i)) with
  | .ok isValid => isValid
  | .error _ => false

/-- The raw location of frame `i` of the stack. -/
def rawLocationAt (rt : Runtime) (ec : ExecutionContext) (i : ℕ) : RawLocation :=
  locationOfFrame rt (ec.frameAt (ec.cfp + i))

/-- The raw locations of the valid frames among the `n` frames of the stack from frame `k` on. -/
def validFrames (rt : Runtime) (ec : ExecutionContext) (k n : ℕ) : List RawLocation :=
  ((List.range' k n).filter (isValidAt rt.toVM ec)).map (rawLocationAt rt ec)

/-- The raw locations of the valid frames of the stack from frame `k` on, in stack order. -/
def capturedFrames (rt : Runtime) (ec : ExecutionContext) (k : ℕ) : List RawLocation :=
  validFrames rt ec k (stackDepth ec - k)

/-- The event keeps to the capacity of the wrapper. -/
def CollectEvent.InBounds : CollectEvent → Prop
  | .capture slot capa => slot < capa
  | .setLen len capa => len ≤ capa
  | .store _ => False

variable {junk : ℕ → UInt8} {rt : Runtime} {minLoc : MinimalLocation} {ec : ExecutionContext}
  {i k n : ℕ} {thread : VALUE}

theorem validFrames_succ :
    validFrames rt ec k (n + 1) =
      validFrames rt ec k n ++ if isValidAt rt.toVM ec (k + n) then [rawLocationAt rt ec (k + n)]
        else [] := by
  unfold validFrames
  rw [List.range'_1_concat, List.filter_append, List.map_append]
  congr 1
  cases h : isValidAt rt.toVM ec (k + n) <;> simp [h]

theorem length_validFrames_le : (validFrames rt ec k n).length ≤ n := by
  unfold validFrames
  rw [List.length_map]
  exact (List.length_filter_le _ _).trans List.length_range'.le

/-- What a capture within the bound of the count returns. -/
theorem capture_eq_isValidAt (hec : ec.Lawful rt.toVM) (hi : i < stackDepth ec)
    (loc : RawLocation) :
    captureFrameForExecutionContext rt ec i loc =
      .ok (isValidAt rt.toVM ec i,
        if isValidAt rt.toVM ec i then rawLocationAt rt ec i else loc) := by
  obtain ⟨isValid, hvalid⟩ := isValidFrame_ok (hec i hi).toProper
  rw [capture_of_lt (lt_stackDepth_iff.1 hi).2, isValidAt, hvalid]
  rfl

theorem capturedFrames_captured (hec : ec.Lawful rt.toVM) :
    ∀ loc ∈ capturedFrames rt ec k, Captured rt loc := by
  intro loc hloc
  obtain ⟨i, hi, rfl⟩ := List.mem_map.1 hloc
  obtain ⟨hrange, hvalid⟩ := List.mem_filter.1 hi
  have hlt : i < stackDepth ec := by
    rw [List.mem_range'_1] at hrange
    omega
  refine ⟨_, hec i hlt, ?_, rfl⟩
  unfold isValidAt at hvalid
  split at hvalid
  · next h => rw [h, hvalid]
  · cases hvalid

/-! ## The loop that captures -/

/-- The invariant of the first loop, `n` frames after frame `k`: the slots below the length hold
the valid frames among them. -/
structure CaptureInv (rt : Runtime) (ec : ExecutionContext) (k n : ℕ) (wrapper : FrameWrapper) :
    Prop where
  capa : wrapper.capa = stackDepth ec
  frames : wrapper.frames.length = wrapper.capa
  len : wrapper.len = (validFrames rt ec k n).length
  slots : ∀ m, m < wrapper.len → wrapper.frames[m]? = (validFrames rt ec k n)[m]?

/-- One round of the first loop. -/
theorem captureRound_inv (hec : ec.Lawful rt.toVM) (halive : isThreadAlive rt.toVM thread)
    (hthread : (rt.threadAt thread).ec = ec) {wrapper : FrameWrapper}
    (hi : k + n < stackDepth ec) (hinv : CaptureInv rt ec k n wrapper) :
    ∃ tr wrapper', (captureRound rt thread wrapper (k + n)).Yields tr wrapper' ∧
      (∀ e ∈ tr, e.InBounds) ∧ CaptureInv rt ec k (n + 1) wrapper' := by
  obtain ⟨hcapa, hframes, hlen, hslots⟩ := hinv
  have hle : (validFrames rt ec k n).length ≤ n := length_validFrames_le
  have hroom : wrapper.len < wrapper.frames.length := by omega
  obtain ⟨slot, hslot⟩ : ∃ slot, wrapper.frames[wrapper.len]? = some slot :=
    ⟨_, List.getElem?_eq_getElem hroom⟩
  have hcapture : captureFrameForThread rt thread (k + n) slot =
      .ok (isValidAt rt.toVM ec (k + n),
        if isValidAt rt.toVM ec (k + n) then rawLocationAt rt ec (k + n) else slot) := by
    rw [captureForThread_of_alive halive, hthread, capture_eq_isValidAt hec hi]
  unfold captureRound
  simp only [frameAt_of_getElem? hslot, hcapture, lift_ok, pure_bind]
  cases hvalid : isValidAt rt.toVM ec (k + n) with
  | true =>
    have hsucc : validFrames rt ec k (n + 1) =
        validFrames rt ec k n ++ [rawLocationAt rt ec (k + n)] := by
      rw [validFrames_succ, hvalid, if_pos rfl]
    refine ⟨[.capture wrapper.len wrapper.capa, .setLen (wrapper.len + 1) wrapper.capa],
      { wrapper with
        frames := wrapper.frames.set wrapper.len (rawLocationAt rt ec (k + n))
        len := wrapper.len + 1 }, rfl, ?_, hcapa, ?_, ?_, fun m hm => ?_⟩
    · simp only [List.mem_cons, List.not_mem_nil, or_false]
      rintro e (rfl | rfl) <;> simp only [CollectEvent.InBounds] <;> omega
    · rw [List.length_set]
      exact hframes
    · rw [hsucc, List.length_append, List.length_singleton, hlen]
    · show (wrapper.frames.set wrapper.len _)[m]? = _
      rw [hsucc]
      rcases Nat.lt_succ_iff_lt_or_eq.1 hm with hlt | rfl
      · rw [List.getElem?_set_ne (by omega), hslots m hlt, List.getElem?_append_left (by omega)]
      · rw [List.getElem?_set_self hroom, hlen, List.getElem?_concat_length]
  | false =>
    have hsucc : validFrames rt ec k (n + 1) = validFrames rt ec k n := by
      rw [validFrames_succ, hvalid, if_neg Bool.false_ne_true, List.append_nil]
    refine ⟨[.capture wrapper.len wrapper.capa],
      { wrapper with frames := wrapper.frames.set wrapper.len slot }, rfl, ?_, hcapa, ?_, ?_,
      fun m hm => ?_⟩
    · simp only [List.mem_singleton]
      rintro e rfl
      simp only [CollectEvent.InBounds]
      omega
    · rw [List.length_set]
      exact hframes
    · rw [hsucc]
      exact hlen
    · show (wrapper.frames.set wrapper.len _)[m]? = _
      have hne : wrapper.len ≠ m := by
        intro heq
        exact absurd (heq ▸ hm) (lt_irrefl _)
      rw [hsucc, List.getElem?_set_ne hne]
      exact hslots m hm

/-- **The first loop**: every capture goes to a slot of the wrapper, the length stays within its
capacity, and in the end the slots below the length hold the valid frames. -/
theorem captureLoop_spec (hec : ec.Lawful rt.toVM) (halive : isThreadAlive rt.toVM thread)
    (hthread : (rt.threadAt thread).ec = ec) (k : ℕ) :
    ∃ tr wrapper, (fold (captureRound rt thread)
        (frameWrapperNew (stackDepth ec))
        (List.range' k (stackDepth ec - k))).Yields tr wrapper ∧
      (∀ e ∈ tr, e.InBounds) ∧
      CaptureInv rt ec k (stackDepth ec - k) wrapper := by
  have hstart : CaptureInv rt ec k (k - k) (frameWrapperNew (stackDepth ec)) := by
    rw [Nat.sub_self]
    exact ⟨rfl, List.length_replicate, rfl, fun m hm => absurd hm (Nat.not_lt_zero m)⟩
  have hloop := fold_countUp (m := stackDepth ec - k)
    (fun j => CaptureInv rt ec k (j - k))
    (fun j wrapper hk hj hinv => by
      obtain ⟨n, rfl⟩ := Nat.exists_eq_add_of_le hk
      rw [Nat.add_sub_cancel_left] at hinv
      rw [show k + n + 1 - k = n + 1 by omega]
      exact captureRound_inv hec halive hthread (by omega) hinv) hstart
  rwa [Nat.add_sub_cancel_left] at hloop

/-! ## The backtrace -/

/-- **A dead thread** has no backtrace. -/
theorem collect_dead {depth : ℕ} (h : ¬isThreadAlive rt.toVM (threadOrCurrent rt thread)) :
    collectBacktraceLocations junk rt depth minLoc thread k = pure none :=
  if_pos h

/-- **The backtrace of a live thread**: an array with one location for each valid frame. -/
theorem collect_alive (hrt : rt.toVM.Lawful) (hec : ec.Lawful rt.toVM)
    (halive : isThreadAlive rt.toVM (threadOrCurrent rt thread))
    (hthread : (rt.threadAt (threadOrCurrent rt thread)).ec = ec) (k : ℕ) :
    ∃ N, ∀ depth, N ≤ depth → ∀ junk minLoc, ∃ tr ary,
      (collectBacktraceLocations junk rt depth minLoc thread k).Yields
        (tr ++ (List.range ary.length).reverse.map .store) (some ary) ∧
      (∀ e ∈ tr, e.InBounds) ∧
      LocatesFrames junk rt depth minLoc (capturedFrames rt ec k) ary := by
  have hframes := capturedFrames_captured (k := k) hec
  obtain ⟨N, hN⟩ := frameName_uniform hrt hframes
  refine ⟨N, fun depth hdepth junk minLoc => ?_⟩
  obtain ⟨tr, wrapper, hloop, hbounds, hinv⟩ := captureLoop_spec hec halive hthread k
  have hlen : wrapper.len = (capturedFrames rt ec k).length := hinv.len
  obtain ⟨ary, hary, hlocates⟩ := buildLocations_spec hrt
    (fun m hm => hinv.slots m (hlen ▸ hm)) hframes (frameName_ok hN hdepth)
  refine ⟨tr, ary, ?_, hbounds, hlocates⟩
  have hcount : frameCountForThread rt.toVM (threadOrCurrent rt thread) = stackDepth ec := by
    rw [frameCountForThread, if_neg (not_not.2 halive), hthread, frameCount_eq_stackDepth]
  rw [hlocates.length]
  unfold collectBacktraceLocations
  simp only [halive, not_true, if_false, hcount]
  refine hloop.bind ?_
  simp only [hlen]
  have hdone := hary.bind (f := fun ary => pure (some ary)) (Yields.pure (some ary))
  rwa [List.append_nil] at hdone

/-- **A backtrace contains exactly the valid frames**, once each and in stack order. A dead thread
has none. For a live one the array has one location for each valid frame from index `k` on; the
run that makes it ends without reaching the assertion on the index, stays within the wrapper, and
stores each element of the array once. The frames are counted up to the bound of the capture. -/
theorem backtrace_exact (junk : ℕ → UInt8) (rt : Runtime) (hrt : rt.toVM.Lawful)
    (minLoc : MinimalLocation) (thread : VALUE) (ec : ExecutionContext)
    (hthread : (rt.threadAt (threadOrCurrent rt thread)).ec = ec) (hec : ec.Lawful rt.toVM)
    (k : ℕ) :
    (¬isThreadAlive rt.toVM (threadOrCurrent rt thread) → ∀ depth,
      collectBacktraceLocations junk rt depth minLoc thread k = pure none) ∧
    (isThreadAlive rt.toVM (threadOrCurrent rt thread) →
      frameCountForThread rt.toVM (threadOrCurrent rt thread) = stackDepth ec ∧
      ∃ N, ∀ depth, N ≤ depth → ∃ tr ary,
        (collectBacktraceLocations junk rt depth minLoc thread k).Yields
          (tr ++ (List.range ary.length).reverse.map .store) (some ary) ∧
        (∀ e ∈ tr, e.InBounds) ∧
        LocatesFrames junk rt depth minLoc (capturedFrames rt ec k) ary) ∧
    ∀ i, i < stackDepth ec ↔
      ec.cfp ≠ 0 ∧ validControlFrameP (ec.cfp + i) (ec.endControlFrame - 1) := by
  refine ⟨fun hdead depth => collect_dead hdead, fun halive => ⟨?_, ?_⟩, fun i => lt_stackDepth_iff⟩
  · rw [frameCountForThread, if_neg (not_not.2 halive), hthread, frameCount_eq_stackDepth]
  · obtain ⟨N, hN⟩ := collect_alive hrt hec halive hthread k
    exact ⟨N, fun depth hdepth => hN depth hdepth junk minLoc⟩

/-- A thread that is called through a frame that does not count: the backtrace has the other two. -/
theorem backtrace_exact_bootThread :
    ∃ depth ary, (collectBacktraceLocations (fun _ => 0)
        (bootRuntime (bootThread false [cFrame 48, dummyFrame, rubyFrame 48])) depth
        MinimalLocation.zeroed 96 0).result = .ok (some ary) ∧ ary.length = 2 := by
  obtain ⟨-, halive, -⟩ := backtrace_exact (fun _ => 0)
    (bootRuntime (bootThread false [cFrame 48, dummyFrame, rubyFrame 48])) (bootVM_lawful _)
    MinimalLocation.zeroed 96 _ rfl (stackOf_lawful fun frame hframe => by
      simp only [List.mem_cons, List.not_mem_nil, or_false] at hframe
      rcases hframe with rfl | rfl | rfl
      · exact cFrame_lawful _ 48
      · exact dummyFrame_lawful _
      · exact rubyFrame_lawful _ 48) 0
  obtain ⟨-, N, hN⟩ := halive (bootThread_alive _)
  obtain ⟨tr, ary, hrun, -, hlocates⟩ := hN N le_rfl
  exact ⟨N, ary, hrun.result, hlocates.length⟩

end

end Backtracie
