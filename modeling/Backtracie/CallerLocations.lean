import Backtracie.Backtrace

/-!
# The backtrace of the running thread

`caller_locations` is documented to return an array, that of the frames of its caller and below. It
does so with the function that collects the backtrace of any thread, which returns `nil` for a
thread that is to be killed. The running thread can be one: the `ensure` clauses of a thread run
after `Thread#kill`. `callerLocations_iff`: this is the only case in which there is no array.
-/

namespace Backtracie

open CMem Traced

/-- `caller_locations` returns an array with one location for each valid frame from frame 3 on. -/
def ReturnsCallerLocations (junk : ℕ → UInt8) (rt : Runtime) (minLoc : MinimalLocation) : Prop :=
  ∃ N, ∀ depth, N ≤ depth → ∃ ary,
    (primitiveCallerLocations junk rt depth minLoc).result = .ok (some ary) ∧
    LocatesFrames junk rt depth minLoc (capturedFrames rt (rt.threadAt rt.rbThreadCurrent).ec 3) ary

variable {junk : ℕ → UInt8} {rt : Runtime} {minLoc : MinimalLocation}

theorem threadOrCurrent_nil : threadOrCurrent rt qnil = rt.rbThreadCurrent :=
  if_pos fun h => h.2 rfl

theorem callerLocations_alive (hrt : rt.toVM.Lawful)
    (hec : (rt.threadAt rt.rbThreadCurrent).ec.Lawful rt.toVM)
    (halive : isThreadAlive rt.toVM rt.rbThreadCurrent) :
    ReturnsCallerLocations junk rt minLoc := by
  have hthread : (rt.threadAt (threadOrCurrent rt qnil)).ec =
      (rt.threadAt rt.rbThreadCurrent).ec := by
    rw [threadOrCurrent_nil]
  rw [← threadOrCurrent_nil] at halive
  obtain ⟨N, hN⟩ := collect_alive hrt hec halive hthread 3
  refine ⟨N, fun depth hdepth => ?_⟩
  obtain ⟨tr, ary, hrun, -, hlocates⟩ := hN depth hdepth junk minLoc
  exact ⟨ary, hrun.result, hlocates⟩

theorem callerLocations_dead (hdead : ¬isThreadAlive rt.toVM rt.rbThreadCurrent) (depth : ℕ) :
    primitiveCallerLocations junk rt depth minLoc = pure none := by
  rw [← threadOrCurrent_nil] at hdead
  exact collect_dead hdead

theorem not_returnsCallerLocations (hdead : ¬isThreadAlive rt.toVM rt.rbThreadCurrent) :
    ¬ReturnsCallerLocations junk rt minLoc := by
  rintro ⟨N, hN⟩
  obtain ⟨ary, hary, -⟩ := hN N le_rfl
  rw [callerLocations_dead hdead] at hary
  cases hary

/-- **`caller_locations` returns an array** for the running thread if and only if the thread is not
to be killed. -/
theorem callerLocations_iff (junk : ℕ → UInt8) (rt : Runtime) (hrt : rt.toVM.Lawful)
    (minLoc : MinimalLocation)
    (hstatus : (rt.threadAt rt.rbThreadCurrent).status ≠ .killed)
    (hec : (rt.threadAt rt.rbThreadCurrent).ec.Lawful rt.toVM) :
    ReturnsCallerLocations junk rt minLoc ↔ (rt.threadAt rt.rbThreadCurrent).toKill = false := by
  cases hkill : (rt.threadAt rt.rbThreadCurrent).toKill with
  | true =>
    have hdead : ¬isThreadAlive rt.toVM rt.rbThreadCurrent := not_not.2 (.inl hkill)
    exact iff_of_false (not_returnsCallerLocations hdead) Bool.noConfusion
  | false =>
    refine iff_of_true (callerLocations_alive hrt hec ?_) rfl
    rintro (h | h)
    · rw [hkill] at h
      cases h
    · exact hstatus h

/-- A thread that nobody kills, in the native function, which `Backtracie.caller_locations` called,
which a method called: the frame of the method's caller is left. -/
theorem callerLocations_iff_bootThread :
    ReturnsCallerLocations (fun _ => 0)
      (bootRuntime (bootThread false [cFrame 32, rubyFrame 32, rubyFrame 48, rubyFrame 80]))
      MinimalLocation.zeroed ∧
    capturedFrames
        (bootRuntime (bootThread false [cFrame 32, rubyFrame 32, rubyFrame 48, rubyFrame 80]))
        (bootThread false [cFrame 32, rubyFrame 32, rubyFrame 48, rubyFrame 80]).ec 3 =
      [locationOfFrame
        (bootRuntime (bootThread false [cFrame 32, rubyFrame 32, rubyFrame 48, rubyFrame 80]))
        (rubyFrame 80)] := by
  refine ⟨(callerLocations_iff (fun _ => 0)
    (bootRuntime (bootThread false [cFrame 32, rubyFrame 32, rubyFrame 48, rubyFrame 80]))
    (bootVM_lawful _) MinimalLocation.zeroed ?_ (stackOf_lawful ?_)).2 rfl, rfl⟩
  · exact fun h => ThreadStatus.noConfusion h
  · intro frame hframe
    simp only [List.mem_cons, List.not_mem_nil, or_false] at hframe
    rcases hframe with rfl | rfl | rfl | rfl
    · exact cFrame_lawful _ 32
    · exact rubyFrame_lawful _ 32
    · exact rubyFrame_lawful _ 48
    · exact rubyFrame_lawful _ 80

/-- **A thread that is to be killed and still runs** gets `nil`, whatever is on its stack. -/
theorem callerLocations_toKill :
    (bootThread true [cFrame 32, rubyFrame 32, rubyFrame 48, rubyFrame 48]).status = .runnable ∧
    (∀ depth, primitiveCallerLocations (fun _ => 0)
      (bootRuntime (bootThread true [cFrame 32, rubyFrame 32, rubyFrame 48, rubyFrame 48])) depth
      MinimalLocation.zeroed = pure none) ∧
    ¬ReturnsCallerLocations (fun _ => 0)
      (bootRuntime (bootThread true [cFrame 32, rubyFrame 32, rubyFrame 48, rubyFrame 48]))
      MinimalLocation.zeroed := by
  have hdead : ¬isThreadAlive
      (bootVM (bootThread true [cFrame 32, rubyFrame 32, rubyFrame 48, rubyFrame 48])) 96 :=
    not_not.2 (.inl rfl)
  exact ⟨rfl, fun depth => callerLocations_dead hdead depth, not_returnsCallerLocations hdead⟩

end Backtracie
