import Backtracie.Queries
import Backtracie.Wrapper

/-!
# Collecting a backtrace

`backtracie.c`: the frames of a thread are captured into the slots of a frame wrapper, valid ones
only, and a Ruby array of locations is made of them. The array is filled from its end, so that the
nearest Ruby frame below a frame of a C function, which has no path of its own, is at hand.

The pointers into the array of captured frames (`raw_loc`, `prev_ruby_loc`) are indices here. What
the two loops do to the slots, to the length and to the result is logged (`CollectEvent`).
-/

namespace Backtracie

open CMem Traced

/-! ## Locations -/

/-- The hash of `debug_raw_location`. -/
structure DebugInfo where
  rubyFrame : Bool
  selfIsRealSelf : Bool
  rbProfileFrames : Option (List (ProfileQuery × VALUE))
  selfOrSelfClass : VALUE
  pc : ℕ
  cfuncFunctionInfo : VALUE
  deriving DecidableEq

/-- `Backtracie::Location`. -/
structure Location where
  absolutePath : Option RString
  baseLabel : Option RString
  label : Option RString
  lineno : ℤ
  path : Option RString
  qualifiedMethodName : RString
  pathIsSynthetic : Bool
  debug : DebugInfo
  deriving DecidableEq

/-- The local variables of `frame_to_location` for the paths and the line number. -/
structure SourcePosition where
  filenameAbs : Option RString
  filenameRel : Option RString
  lineNumber : ℤ
  pathIsSynthetic : Bool
  deriving DecidableEq

/-- The entries of the hash of `debug_frame`, in their order. -/
def ProfileQuery.all : List ProfileQuery :=
  [.path, .absolutePath, .label, .baseLabel, .fullLabel, .firstLineno, .classpath,
    .singletonMethodP, .methodName, .qualifiedMethodName]

section

variable (junk : ℕ → UInt8) (rt : Runtime) (depth : ℕ) (minLoc : MinimalLocation)

/-- `debug_frame`: `none` for `Qnil`. -/
def debugFrame (frame : VALUE) : Option (List (ProfileQuery × VALUE)) :=
  if frame = qnil then none
  else some (ProfileQuery.all.map fun query => (query, rt.rbProfileFrame query frame))

/-- Without the disabled part. -/
def cfuncFunctionInfo (_theLocation : RawLocation) : VALUE := qnil

/-- `debug_raw_location`. -/
def debugRawLocation (theLocation : RawLocation) : Except Fault DebugInfo := do
  let frame ← frameForRbProfile rt theLocation
  pure { rubyFrame := theLocation.isRubyFrame
         selfIsRealSelf := theLocation.selfIsRealSelf
         rbProfileFrames := debugFrame rt frame
         selfOrSelfClass := theLocation.selfOrSelfClass
         pc := theLocation.pc
         cfuncFunctionInfo := cfuncFunctionInfo theLocation }

/-- What `frame_to_location` takes from the previous Ruby frame. -/
def sourcePosition (frames : List RawLocation) (rawLoc : ℕ) : Option ℕ → Comp SourcePosition
  | some prevRubyLoc => do
    let loc ← lift (frameAt frames prevRubyLoc)
    let filenameAbs ← frameFilenameRbstr junk rt loc true
    let filenameRel ← frameFilenameRbstr junk rt loc false
    let lineNumber ← lift (frameLineNumber rt loc)
    pure { filenameAbs := filenameAbs, filenameRel := filenameRel, lineNumber := lineNumber.toInt,
           pathIsSynthetic := decide (rawLoc ≠ prevRubyLoc) }
  | none =>
    let filenameAbs := rbStrNew2 (lit "(in native code)")
    pure { filenameAbs := some filenameAbs, filenameRel := some filenameAbs, lineNumber := 0,
           pathIsSynthetic := true }

/-- `frame_to_location`: the location of slot `rawLoc`, with the path and line of slot
`prevRubyLoc`. -/
def frameToLocation (frames : List RawLocation) (rawLoc : ℕ) (prevRubyLoc : Option ℕ) :
    Comp Location := do
  let source ← sourcePosition junk rt frames rawLoc prevRubyLoc
  let loc ← lift (frameAt frames rawLoc)
  let baseLabel ← frameLabelRbstr junk rt loc true
  let label ← frameLabelRbstr junk rt loc false
  let name ← frameNameRbstr junk rt depth minLoc loc
  let debug ← lift (debugRawLocation rt loc)
  pure { absolutePath := source.filenameAbs, baseLabel := baseLabel, label := label
         lineno := source.lineNumber, path := source.filenameRel, qualifiedMethodName := name
         pathIsSynthetic := source.pathIsSynthetic, debug := debug }

/-! ## The two loops -/

/-- What the loops do to the wrapper and to the result. -/
inductive CollectEvent
  /-- A frame is captured into a slot of a wrapper with the given capacity. -/
  | capture (slot capa : ℕ)
  /-- The length of a wrapper with the given capacity is set. -/
  | setLen (len capa : ℕ)
  /-- An element of the result is stored. -/
  | store (i : ℕ)
  deriving DecidableEq

/-- A part of the collection of a backtrace. -/
abbrev Collect := Traced CollectEvent Fault

/-- One round of the loop that captures frame `i` of the thread. -/
def captureRound (thread : VALUE) (wrapper : FrameWrapper) (i : ℕ) : Collect FrameWrapper := do
  emit (.capture wrapper.len wrapper.capa)
  let slot ← lift (frameAt wrapper.frames wrapper.len)
  let (validFrame, loc) ← lift (captureFrameForThread rt thread i slot)
  let wrapper := { wrapper with frames := wrapper.frames.set wrapper.len loc }
  if validFrame then do
    emit (.setLen (wrapper.len + 1) wrapper.capa)
    pure { wrapper with len := wrapper.len + 1 }
  else pure wrapper

/-- `rb_ary_store`: an array is filled up with `nil` to the index of the new element. -/
def rbAryStore {α : Type} (ary : List (Option α)) (i : ℕ) (x : α) : List (Option α) :=
  if i < ary.length then ary.set i (some x)
  else ary ++ List.replicate (i - ary.length) none ++ [some x]

/-- One round of the loop that makes a location of slot `i`; `state` is `prev_ruby_loc` and the
array. -/
def locationRound (frames : List RawLocation) (state : Option ℕ × List (Option Location)) (i : ℕ) :
    Collect (Option ℕ × List (Option Location)) := do
  let loc ← lift (frameAt frames i)
  let prevRubyLoc := if loc.isRubyFrame then some i else state.1
  let rbLoc ← lift (frameToLocation junk rt depth minLoc frames i prevRubyLoc).result
  emit (.store i)
  pure (prevRubyLoc, rbAryStore state.2 i rbLoc)

/-- The second loop: the array of the locations of the first `len` slots. -/
def buildLocations (frames : List RawLocation) (len : ℕ) : Collect (List (Option Location)) := do
  let state ← fold (locationRound junk rt depth minLoc frames) (none, []) (List.range len).reverse
  pure state.2

/-- The thread a backtrace is collected of: the current one for `nil`. -/
def threadOrCurrent (thread : VALUE) : VALUE := if ¬rtest thread then rt.rbThreadCurrent else thread

/-- `collect_backtrace_locations`: `none` for `Qnil`. -/
def collectBacktraceLocations (thread : VALUE) (ignoredStackTopFrames : ℕ) :
    Collect (Option (List (Option Location))) :=
  let thread := threadOrCurrent rt thread
  if ¬isThreadAlive rt.toVM thread then pure none
  else do
    let rawFrameCount := frameCountForThread rt.toVM thread
    let wrapper ← fold (captureRound rt thread) (frameWrapperNew rawFrameCount)
      (List.range' ignoredStackTopFrames (rawFrameCount - ignoredStackTopFrames))
    let rbLocations ← buildLocations junk rt depth minLoc wrapper.frames wrapper.len
    pure (some rbLocations)

/-- `primitive_caller_locations`: without its own frame, that of `Backtracie.caller_locations`, and
that of the method that called it. -/
def primitiveCallerLocations : Collect (Option (List (Option Location))) :=
  let ignoredStackTopFrames := 3
  collectBacktraceLocations junk rt depth minLoc qnil ignoredStackTopFrames

/-- `primitive_backtrace_locations`, once `ensure_object_is_thread` has let the thread pass. -/
def primitiveBacktraceLocations (thread : VALUE) : Collect (Option (List (Option Location))) :=
  let ignoredStackTopFrames := 0
  collectBacktraceLocations junk rt depth minLoc thread ignoredStackTopFrames

end

end Backtracie
