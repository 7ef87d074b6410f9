import Backtracie.Stringify

/-!
# The filename of a minimal record

`minimal_location_t` has a field for the absolute path of a frame, and a function of the interface
reads it; but no function assigns it. So the filename of a captured minimal record is what its
memory held before. `minimal_filename_iff`: it is the one of the raw record of the same frame
exactly when the field already had the text of that path.
-/

namespace Backtracie

open CMem Traced

/-! ## The text of a path -/

/-- The text of a path: none at all for `nil`, and undefined for what is not a string. -/
def pathText (vm : VM) (path : VALUE) : Option Bytes :=
  if rtest path then vm.stringContent path else some []

/-- For all buffers that are large enough, the two functions for the absolute filename leave the
same text and return its length; it is empty for a frame without a filename. -/
def FilenamesAgree (junk : ℕ → UInt8) (rt : Runtime) (frame : ControlFrame)
    (minLoc : MinimalLocation) (loc : RawLocation) : Prop :=
  ∃ n₀, ∀ buf : Bytes, n₀ ≤ buf.length → ∃ text,
    LeavesText text (minimalFrameFilenameCstr junk rt minLoc buf) ∧
    LeavesText text (frameFilenameCstr junk rt loc true buf) ∧
    (¬rtest (framePath rt.toVM frame true) → text = [])

variable {junk : ℕ → UInt8} {rt : Runtime} {frame : ControlFrame} {minLoc : MinimalLocation}
  {text : Bytes} {path : VALUE}

theorem pathText_string (h : stringOrNil rt.toVM path) :
    ∃ text, pathText rt.toVM path = some text := by
  unfold pathText
  split
  · next htest => exact ⟨_, if_pos (h htest)⟩
  · exact ⟨[], rfl⟩

/-! ## What the two functions leave -/

section

variable {α : Type} {write : Emit α} {a : α} {buf : Bytes}

/-- Writing nothing, for a path that is not there. -/
theorem cstrQuery_nothing (hwrite : write.Yields [] a) (hbuf : 0 < buf.length) :
    LeavesText [] (cstrQuery junk buf write) := by
  rw [cstrQuery_of_ok junk hwrite.result, hwrite.trace]
  exact writePieces_leavesText junk (by simp) hbuf

/-- Writing one string. -/
theorem cstrQuery_appendValue (hwrite : write.Yields [.appendValue (some text)] a)
    (hbuf : text.length < buf.length) : LeavesText text (cstrQuery junk buf write) := by
  rw [← textOf_appendValue text] at hbuf
  have hleaves := writePieces_leavesText junk (proper_appendValue text) hbuf
  rw [textOf_appendValue] at hleaves
  rwa [cstrQuery_of_ok junk hwrite.result, hwrite.trace]

/-- Writing something that is not a string. -/
theorem cstrQuery_abort (hwrite : write.Yields [.appendValue none] a) :
    ¬LeavesText text (cstrQuery junk buf write) := by
  obtain ⟨tr, str, hinit, -, -⟩ := holds_init buf
  rintro ⟨buf', hres, -⟩
  rw [cstrQuery_of_ok junk hwrite.result, hwrite.trace, writePieces, hinit, mk_ok_bind] at hres
  cases hres

end

/-- The function for minimal records leaves the text of the field. -/
theorem minimalFilename_leavesText (h : pathText rt.toVM minLoc.filename = some text) {buf : Bytes}
    (hbuf : text.length < buf.length) :
    LeavesText text (minimalFrameFilenameCstr junk rt minLoc buf) := by
  unfold minimalFrameFilenameCstr minimalFrameFilename
  unfold pathText at h
  split at h
  · next htest =>
    rw [if_pos htest]
    refine cstrQuery_appendValue (a := ()) ?_ hbuf
    rw [← h]
    exact Yields.emit _
  · next htest =>
    obtain rfl := Option.some.inj h
    rw [if_neg htest]
    exact cstrQuery_nothing (Yields.pure ()) hbuf

/-- With something other than a string in the field, there is no text. -/
theorem minimalFilename_aborts (h : pathText rt.toVM minLoc.filename = none) (buf : Bytes) :
    ¬LeavesText text (minimalFrameFilenameCstr junk rt minLoc buf) := by
  unfold minimalFrameFilenameCstr minimalFrameFilename
  unfold pathText at h
  split at h
  · next htest =>
    rw [if_pos htest]
    refine cstrQuery_abort (a := ()) ?_
    rw [← h]
    exact Yields.emit _
  · cases h

/-- The function for raw records leaves the text of the absolute path of the frame. -/
theorem rawFilename_leavesText (hrt : rt.toVM.Lawful) (h : frame.Proper rt.toVM)
    (htext : pathText rt.toVM (framePath rt.toVM frame true) = some text) {buf : Bytes}
    (hbuf : text.length < buf.length) :
    LeavesText text (frameFilenameCstr junk rt (locationOfFrame rt frame) true buf) := by
  unfold frameFilenameCstr
  rw [frameFilename_eq hrt h, pathOf, writeFound_ite]
  unfold pathText at htext
  split at htext
  · next htest =>
    rw [if_pos htest]
    refine cstrQuery_appendValue (a := true) ?_ hbuf
    rw [← htext]
    exact (Yields.emit _).bind (Yields.pure true)
  · next htest =>
    obtain rfl := Option.some.inj htext
    rw [if_neg htest]
    exact cstrQuery_nothing (Yields.pure false) hbuf

/-! ## When the two agree -/

theorem filenamesAgree_iff (hrt : rt.toVM.Lawful) (h : frame.Proper rt.toVM) :
    FilenamesAgree junk rt frame minLoc (locationOfFrame rt frame) ↔
      pathText rt.toVM minLoc.filename =
        pathText rt.toVM (framePath rt.toVM frame true) := by
  obtain ⟨text, htext⟩ := pathText_string (framePath_string hrt h true)
  rw [htext]
  constructor
  · rintro ⟨n₀, hagree⟩
    cases hmin : pathText rt.toVM minLoc.filename with
    | none =>
      obtain ⟨text', hleaves, -⟩ := hagree (List.replicate n₀ 0) List.length_replicate.ge
      exact absurd hleaves (minimalFilename_aborts hmin _)
    | some stale =>
      -- a buffer beyond `n₀` that has room for both texts
      obtain ⟨text', hleaves, hraw, -⟩ := hagree
        (List.replicate (n₀ + stale.length + text.length + 1) 0)
        (by rw [List.length_replicate]; omega)
      have hstale := hleaves.unique (minimalFilename_leavesText hmin
        (by rw [List.length_replicate]; omega))
      have hframe := hraw.unique (rawFilename_leavesText hrt h htext
        (by rw [List.length_replicate]; omega))
      rw [← hstale, hframe]
  · intro hmin
    refine ⟨text.length + 1, fun buf hbuf => ⟨text, minimalFilename_leavesText hmin hbuf,
      rawFilename_leavesText hrt h htext hbuf, fun hnone => ?_⟩⟩
    rw [pathText, if_neg hnone] at htext
    exact (Option.some.inj htext).symm

/-- **The absolute filenames of the minimal and the raw record of a frame agree** if and only if the
memory of the minimal record already held the text of the absolute path. -/
theorem minimal_filename_iff (junk : ℕ → UInt8) (rt : Runtime) (hrt : rt.toVM.Lawful)
    (thread : VALUE) (i : ℕ) (loc rawLoc rawLoc' : RawLocation) (before minLoc : MinimalLocation)
    (hframe : ((rt.threadAt thread).ec.frameAt ((rt.threadAt thread).ec.cfp + i)).Proper rt.toVM)
    (hraw : captureFrameForThread rt thread i loc = .ok (true, rawLoc))
    (hmin : captureMinimalFrameForThread rt rawLoc' thread i before = .ok (true, minLoc)) :
    FilenamesAgree junk rt ((rt.threadAt thread).ec.frameAt ((rt.threadAt thread).ec.cfp + i))
        minLoc rawLoc ↔
      pathText rt.toVM before.filename = pathText rt.toVM (framePath rt.toVM
        ((rt.threadAt thread).ec.frameAt ((rt.threadAt thread).ec.cfp + i)) true) := by
  obtain ⟨halive, hcapture⟩ := captureForThread_true hraw
  obtain ⟨hlt, hvalid, hloc⟩ := capture_ok hcapture
  rw [if_pos rfl] at hloc
  obtain ⟨minLoc', hfill, hminimizes⟩ := toMinimalLocation_minimizes hframe before
  have hmin' : captureMinimalFrameForThread rt rawLoc' thread i before = .ok (true, minLoc') := by
    unfold captureMinimalFrameForThread
    rw [captureForThread_of_alive halive, capture_of_lt hlt, hvalid]
    show (rawLocationToMinimalLocation rt (locationOfFrame rt _) before >>=
      fun loc => pure (true, loc)) = .ok (true, minLoc')
    rw [hfill]
    rfl
  rw [hmin'] at hmin
  obtain ⟨-, rfl⟩ := Prod.mk.inj (Except.ok.inj hmin)
  rw [hloc, filenamesAgree_iff hrt hframe, hminimizes.filename]

/-- A record that happens to hold the path of the frame. -/
theorem minimal_filename_iff_rubyFrame : ∃ minLoc,
    captureMinimalFrameForThread (bootRuntime (bootThread false [rubyFrame 48])) RawLocation.zeroed
      96 0 { MinimalLocation.zeroed with filename := 157 } = .ok (true, minLoc) ∧
    FilenamesAgree (fun _ => 0) (bootRuntime (bootThread false [rubyFrame 48])) (rubyFrame 48)
      minLoc (locationOfFrame (bootRuntime (bootThread false [rubyFrame 48])) (rubyFrame 48)) := by
  refine ⟨_, rfl, (minimal_filename_iff (fun _ => 0)
    (bootRuntime (bootThread false [rubyFrame 48])) (bootVM_lawful _) 96 0 RawLocation.zeroed _
    RawLocation.zeroed { MinimalLocation.zeroed with filename := 157 } _
    (rubyFrame_lawful _ 48).toProper rfl rfl).2 rfl⟩

/-- **A record of zero bytes**, and a frame of the file `/m.rb`: the function for raw records
returns the length of the path, the one for minimal records returns `0`. -/
theorem minimal_filename_zeroed : ∃ minLoc,
    captureMinimalFrameForThread (bootRuntime (bootThread false [rubyFrame 48])) RawLocation.zeroed
      96 0 MinimalLocation.zeroed = .ok (true, minLoc) ∧
    (∀ buf : Bytes, 5 < buf.length → LeavesText [] (minimalFrameFilenameCstr (fun _ => 0)
      (bootRuntime (bootThread false [rubyFrame 48])) minLoc buf)) ∧
    (∀ buf : Bytes, 5 < buf.length → LeavesText (lit "/m.rb") (frameFilenameCstr (fun _ => 0)
      (bootRuntime (bootThread false [rubyFrame 48]))
      (locationOfFrame (bootRuntime (bootThread false [rubyFrame 48])) (rubyFrame 48)) true buf)) ∧
    ¬FilenamesAgree (fun _ => 0) (bootRuntime (bootThread false [rubyFrame 48])) (rubyFrame 48)
      minLoc (locationOfFrame (bootRuntime (bootThread false [rubyFrame 48])) (rubyFrame 48)) := by
  have hproper := (rubyFrame_lawful (bootThread false [rubyFrame 48]) 48).toProper
  refine ⟨_, rfl, fun buf hbuf => ?_, fun buf hbuf => ?_, fun hagree => ?_⟩
  · exact minimalFilename_leavesText rfl (Nat.zero_lt_of_lt hbuf)
  · exact rawFilename_leavesText (bootVM_lawful _) hproper rfl hbuf
  · have htexts := (filenamesAgree_iff (bootVM_lawful _) hproper).1 hagree
    exact absurd htexts (by decide)

end Backtracie
