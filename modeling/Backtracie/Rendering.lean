import Backtracie.SkippedFrames
import Backtracie.LineNumbers
import Backtracie.RubyStrings

/-!
# Backtraces as text

The methods `to_s` and `fancy_to_s` of `Backtracie::Location`, in `location.rb`, and what they make
of a whole backtrace. `backtraceText` is the text of a stack, by recursion over its control frames:
one line for each valid frame, with the place of the first Ruby frame from there on.
`backtrace_text`: this is what the methods return for the locations of a live thread. They never
raise, because all strings in a location are of the encoding `ASCII-8BIT`.
-/

namespace Backtracie

open CMem Traced

/-! ## Locations as text -/

/-- The numbers of the encodings `UTF-8` and `US-ASCII`. -/
def encUtf8 : ℕ := 1
def encUsAscii : ℕ := 2

/-- Some byte of the string is not ASCII. -/
def RString.nonAscii (s : RString) : Bool := s.bytes.any fun b => decide (128 ≤ b.toNat)

/-- A literal of `location.rb`. -/
def rbLit (s : String) : RString := { bytes := lit s, encoding := encUtf8 }

/-- `Integer#to_s`. -/
def integerToS (n : ℤ) : RString := { bytes := lit (toString n), encoding := encUsAscii }

/-- `to_s` of a string, or of `nil`. -/
def stringToS : Option RString → RString
  | some s => s
  | none => { bytes := [], encoding := encUsAscii }

/-- A string is made of parts; `none` for the `Encoding::CompatibilityError` that is raised when two
of them have bytes that are not ASCII, in different encodings. -/
def interpolate (parts : List RString) : Option Bytes :=
  if ∀ s ∈ parts, ∀ t ∈ parts, s.nonAscii = true → t.nonAscii = true → s.encoding = t.encoding then
    some (parts.flatMap RString.bytes)
  else none

/-- `Backtracie::Location#to_s`. -/
def Location.toS (location : Location) : Option Bytes :=
  if location.lineno ≠ 0 then
    interpolate [stringToS location.path, rbLit ":", integerToS location.lineno, rbLit ":in `",
      stringToS location.label, rbLit "'"]
  else interpolate [stringToS location.path, rbLit ":in `", stringToS location.label, rbLit "'"]

/-- `Backtracie::Location#fancy_to_s`. -/
def Location.fancyToS (location : Location) : Option Bytes :=
  if location.lineno ≠ 0 then
    interpolate [stringToS location.path, rbLit ":", integerToS location.lineno, rbLit ":in ",
      location.qualifiedMethodName]
  else interpolate [stringToS location.path, rbLit ":in ", location.qualifiedMethodName]

/-! ## The text of a stack -/

/-- A place in the source; line `0` stands for none. -/
structure Place where
  path : Bytes
  line : ℤ

/-- The place of a C function that no Ruby code has called. -/
def Place.native : Place := { path := lit "(in native code)", line := 0 }

/-- A line of a backtrace, for code in a place. -/
def Place.text (place : Place) (title : Bytes) : Bytes :=
  place.path ++ (if place.line ≠ 0 then lit ":" ++ lit (toString place.line) else []) ++
    lit ":in " ++ title

/-- The control frames of the stack from frame `k` on. -/
def stackFrames (ec : ExecutionContext) (k : ℕ) : List ControlFrame :=
  (List.range' k (stackDepth ec - k)).map fun i : ℕ => ec.frameAt (ec.cfp + i)

/-- The frame passes the validity test. -/
def countsFrame (vm : VM) (frame : ControlFrame) : Bool :=
  match isValidFrame vm frame with
  | .ok isValid => isValid
  | .error _ => false

/-- The bytes of a string of the VM up to the first NUL. -/
def stringText (vm : VM) : Option VALUE → Bytes
  | some v => cstr (vm.rstring v).bytes
  | none => []

section

variable (rt : Runtime)

/-- Where the code of a Ruby frame is: the path up to its first NUL, and the line. -/
def placeOf (frame : ControlFrame) : Place :=
  { path := stringText rt.toVM (pathOf rt.toVM frame false)
    line := ((frameIseq rt.toVM frame).elim 0 fun iseq =>
      rt.rbIseqLineNo frame.iseq (instructionPos iseq frame.pc)).toInt }

/-- Where a stack is: in the first of its Ruby frames. -/
def currentPlace (stack : List ControlFrame) : Place :=
  (stack.find? fun frame => countsFrame rt.toVM frame && frame.rubyframeP).elim Place.native
    (placeOf rt)

/-- The lines of the backtrace, where `title` says what is written of a frame itself. -/
def backtraceText (title : ControlFrame → Bytes) : List ControlFrame → List Bytes
  | [] => []
  | frame :: below =>
    if countsFrame rt.toVM frame then
      (currentPlace rt (frame :: below)).text (title frame) :: backtraceText title below
    else backtraceText title below

/-- The label up to its first NUL, in quotes. -/
def labelTitle (frame : ControlFrame) : Bytes :=
  lit "`" ++ stringText rt.toVM (labelOf rt.toVM frame false) ++ lit "'"

/-- The qualified name up to its first NUL. -/
def nameTitle (depth : ℕ) (frame : ControlFrame) : Bytes :=
  cstr (textOf (frameReferenceName rt depth frame).trace)

end

/-! ## Interpolation -/

/-- The string is ASCII, or of the encoding `ASCII-8BIT`. -/
def RString.Plain (s : RString) : Prop := s.nonAscii = true → s.encoding = encAscii8bit

/-- The place that is written for the location. -/
def Location.place (location : Location) : Place :=
  { path := (stringToS location.path).bytes, line := location.lineno }

section

variable {parts : List RString} {location : Location} {s : RString}

/-- Such strings go together. -/
theorem interpolate_plain (h : ∀ s ∈ parts, s.Plain) :
    interpolate parts = some (parts.flatMap RString.bytes) := by
  unfold interpolate
  apply if_pos
  intro s hs t ht hs' ht'
  rw [h s hs hs', h t ht ht']

theorem plain_of_ascii (h : ∀ b ∈ s.bytes, b.toNat < 128) : s.Plain := by
  intro hs
  obtain ⟨b, hb, hle⟩ := List.any_eq_true.1 hs
  exact absurd (h b hb) (Nat.not_lt.2 (of_decide_eq_true hle))

theorem stringToS_plain {string : Option RString}
    (h : ∀ s, string = some s → s.encoding = encAscii8bit) : (stringToS string).Plain := by
  cases string with
  | none =>
    apply plain_of_ascii
    intro b hb
    cases hb
  | some s => exact fun _ => h s rfl

/-- The digits of a number are ASCII. -/
theorem digits_ascii (n : ℕ) : ∀ b ∈ lit (Nat.repr n), b.toNat < 128 := by
  intro b hb
  obtain ⟨c, hc, rfl⟩ := List.mem_map.1 hb
  rw [Nat.repr, String.toList_ofList] at hc
  have hdigit : c.toNat ≤ 57 := by
    have h := Nat.isDigit_of_mem_toDigits (Nat.succ_pos 9) le_rfl hc
    simp only [Char.isDigit, Bool.and_eq_true, decide_eq_true_eq] at h
    exact h.2
  rw [UInt8.toNat_ofNat']
  omega

theorem integerToS_plain (n : ℤ) : (integerToS n).Plain := by
  apply plain_of_ascii
  intro b hb
  cases n with
  | ofNat m => exact digits_ascii m b hb
  | negSucc m =>
    have hsign : (integerToS (Int.negSucc m)).bytes = lit "-" ++ lit (Nat.repr (m + 1)) := by
      show lit (Int.repr (Int.negSucc m)) = _
      simp [Int.repr, lit]
    rw [hsign, List.mem_append] at hb
    rcases hb with hb | hb
    · obtain rfl : b = 45 := List.mem_singleton.1 hb
      decide
    · exact digits_ascii (m + 1) b hb

theorem rbLit_plain : (rbLit ":").Plain ∧ (rbLit ":in ").Plain ∧ (rbLit ":in `").Plain ∧
    (rbLit "'").Plain := by
  refine ⟨?_, ?_, ?_, ?_⟩ <;> exact fun h => absurd h (by decide)

/-- What `to_s` returns. -/
theorem Location.toS_eq (hpath : (stringToS location.path).Plain)
    (hlabel : (stringToS location.label).Plain) :
    location.toS = some (location.place.text
      (lit "`" ++ (stringToS location.label).bytes ++ lit "'")) := by
  obtain ⟨hcolon, -, hin, hquote⟩ := rbLit_plain
  unfold Location.toS Place.text Location.place
  split
  · rw [interpolate_plain (by simp [hpath, hlabel, hcolon, hin, hquote, integerToS_plain])]
    simp [rbLit, integerToS, lit]
  · rw [interpolate_plain (by simp [hpath, hlabel, hin, hquote])]
    simp [rbLit, lit]

/-- What `fancy_to_s` returns. -/
theorem Location.fancyToS_eq (hpath : (stringToS location.path).Plain)
    (hname : location.qualifiedMethodName.Plain) :
    location.fancyToS = some (location.place.text location.qualifiedMethodName.bytes) := by
  obtain ⟨hcolon, hin, -, -⟩ := rbLit_plain
  unfold Location.fancyToS Place.text Location.place
  split
  · rw [interpolate_plain (by simp [hpath, hname, hcolon, hin, integerToS_plain])]
    simp [rbLit, integerToS, lit]
  · rw [interpolate_plain (by simp [hpath, hname, hin])]
    simp [rbLit, lit]

end

/-! ## One frame -/

section

variable {rt : Runtime} {junk : ℕ → UInt8} {depth : ℕ} {minLoc : MinimalLocation}
  {frame : ControlFrame} {location : Location} {pos : SourcePosition} {i j : ℕ}

theorem countsFrame_iff {vm : VM} :
    countsFrame vm frame = true ↔ isValidFrame vm frame = .ok true := by
  unfold countsFrame
  split
  · next h => rw [h, Except.ok.injEq]
  · next h =>
    rw [h]
    exact iff_of_false Bool.false_ne_true (fun hok => by cases hok)

/-- A string that a query returns is one of the VM up to its first NUL. -/
theorem rbstrQuery_writeFound {string : Option VALUE}
    (hstring : ∀ v, string = some v → rt.rbType v = .tString) :
    (rbstrQuery junk (writeFound rt.toVM string)).result =
      .ok (string.map fun v => rbStrNew2 (rt.rstring v).bytes) := by
  cases string with
  | none => exact rbstrQuery_none
  | some v => exact rbstrQuery_some (hstring v rfl)

theorem stringToS_map (string : Option VALUE) :
    (stringToS (string.map fun v => rbStrNew2 (rt.rstring v).bytes)).bytes =
      stringText rt.toVM string := by
  cases string <;> rfl

variable (hrt : rt.toVM.Lawful)

include hrt

theorem PositionOf.path_eq (h : frame.Proper rt.toVM)
    (hpos : PositionOf junk rt (locationOfFrame rt frame) i j pos) :
    pos.filenameRel =
      (pathOf rt.toVM frame false).map fun v => rbStrNew2 (rt.rstring v).bytes := by
  have hquery := hpos.filenameRel
  unfold frameFilenameRbstr at hquery
  rw [frameFilename_eq hrt h, rbstrQuery_writeFound fun v hv => pathOf_string hrt h hv] at hquery
  exact (Except.ok.inj hquery).symm

theorem DescribesFrame.label_eq (h : frame.Proper rt.toVM)
    (hlocation : DescribesFrame junk rt depth minLoc (locationOfFrame rt frame) location) :
    location.label =
      (labelOf rt.toVM frame false).map fun v => rbStrNew2 (rt.rstring v).bytes := by
  have hquery := hlocation.label
  unfold frameLabelRbstr at hquery
  rw [frameLabel_eq h, rbstrQuery_writeFound fun v hv => labelOf_string hrt h hv] at hquery
  exact (Except.ok.inj hquery).symm

/-- The position of a valid Ruby frame. -/
theorem PositionOf.place_eq (h : frame.Lawful rt.toVM)
    (hvalid : isValidFrame rt.toVM frame = .ok true) (hruby : frame.rubyframeP = true)
    (hpos : PositionOf junk rt (locationOfFrame rt frame) i j location.position) :
    location.place = placeOf rt frame := by
  have hpath : location.path = _ := hpos.path_eq hrt h.toProper
  obtain ⟨lineno, hlineno, hline⟩ := hpos.lineNumber
  obtain ⟨iseq, -, hiseq, hcalc⟩ := calcLineno_rubyframe h hvalid hruby
  have hframe : frameIseq rt.toVM frame = some iseq := by
    rcases frameIseq_cases h.toProper with ⟨-, h0, -⟩ | ⟨iseq', -, -, hiseq', hsome⟩
    · exact absurd h0 (h.rubyframe_iseq hruby)
    · rw [hsome, ← hiseq, hiseq']
  obtain rfl := Except.ok.inj (hlineno.symm.trans hcalc)
  unfold Location.place placeOf
  rw [hpath, stringToS_map, hframe]
  exact congrArg (Place.mk _) hline

end

/-! ## The frames of a stack -/

/-- The frames are valid ones. -/
def AllValid (rt : Runtime) (stack : List ControlFrame) : Prop :=
  ∀ frame ∈ stack, frame.Lawful rt.toVM ∧ isValidFrame rt.toVM frame = .ok true

section

variable {rt : Runtime} {junk : ℕ → UInt8} {depth : ℕ} {minLoc : MinimalLocation}
  {frame : ControlFrame} {stack : List ControlFrame} {location : Location}
  {ary : List (Option Location)}

/-- On valid frames, to be selected for the place is to be a Ruby frame. -/
theorem AllValid.selects (hstack : AllValid rt stack) (hmem : frame ∈ stack) :
    (countsFrame rt.toVM frame && frame.rubyframeP) = frame.rubyframeP := by
  rw [countsFrame_iff.2 (hstack frame hmem).2, Bool.true_and]

theorem location_of_map {j : ℕ} {loc : RawLocation}
    (h : (stack.map (locationOfFrame rt))[j]? = some loc) :
    ∃ frame, stack[j]? = some frame ∧ loc.isRubyFrame = frame.rubyframeP := by
  rw [List.getElem?_map, Option.map_eq_some_iff] at h
  obtain ⟨frame, hframe, rfl⟩ := h
  exact ⟨frame, hframe, rfl⟩

/-- The place of a location without a Ruby frame. -/
theorem place_native (hnative : location.position = nativePosition) :
    location.place = .native ∧ (stringToS location.path).Plain := by
  have hpath : location.path = nativePosition.filenameRel :=
    congrArg SourcePosition.filenameRel hnative
  have hline : location.lineno = 0 := congrArg SourcePosition.lineNumber hnative
  refine ⟨?_, stringToS_plain fun s hs => ?_⟩
  · unfold Location.place
    rw [hpath, hline]
    rfl
  · rw [hpath] at hs
    obtain rfl := Option.some.inj hs
    rfl

/-- The place that is written for the first frame of a stack, and the encoding of its path. -/
theorem LocationOf.place_eq (hrt : rt.toVM.Lawful) (hstack : AllValid rt stack)
    (h : LocationOf junk rt depth minLoc (stack.map (locationOfFrame rt)) 0 location) :
    location.place = currentPlace rt stack ∧ (stringToS location.path).Plain := by
  unfold currentPlace
  rcases hfind : stack.find? (fun frame => countsFrame rt.toVM frame && frame.rubyframeP) with _ | f
  · refine place_native (h.native fun j loc _ hloc => ?_)
    obtain ⟨f, hf, hruby⟩ := location_of_map hloc
    have hmem := List.mem_of_getElem? hf
    have hnot := List.find?_eq_none.1 hfind f hmem
    rw [hstack.selects hmem] at hnot
    exact hruby.trans (Bool.eq_false_iff.2 hnot)
  · obtain ⟨hf, j, hj, hget, hbefore⟩ := List.find?_eq_some_iff_getElem.1 hfind
    have hmem : f ∈ stack := hget ▸ List.getElem_mem hj
    obtain ⟨hlawful, hvalid⟩ := hstack f hmem
    have hruby : f.rubyframeP = true := (Bool.and_eq_true_iff.1 hf).2
    have hslot : (stack.map (locationOfFrame rt))[j]? = some (locationOfFrame rt f) := by
      rw [List.getElem?_map, List.getElem?_eq_getElem hj, hget]
      rfl
    have hpos := h.ruby j _ (Nat.zero_le j) hslot hruby fun m loc _ hm hloc => by
      obtain ⟨g, hg, hgruby⟩ := location_of_map hloc
      obtain ⟨hlt, rfl⟩ := List.getElem?_eq_some_iff.1 hg
      have hnot := hbefore m hm
      rw [hstack.selects (List.getElem_mem hlt), Bool.not_eq_true'] at hnot
      exact hgruby.trans hnot
    refine ⟨hpos.place_eq hrt hlawful hvalid hruby, stringToS_plain fun s hs => ?_⟩
    have hpath : location.path = _ := hpos.path_eq hrt hlawful.toProper
    rw [hpath] at hs
    obtain ⟨v, -, rfl⟩ := Option.map_eq_some_iff.1 hs
    rfl

/-- The locations of the frames below the first. -/
theorem LocationOf.tail {loc : RawLocation} {frames : List RawLocation} {i : ℕ}
    (h : LocationOf junk rt depth minLoc (loc :: frames) (i + 1) location) :
    LocationOf junk rt depth minLoc frames i location where
  own := h.own
  ruby j loc' hij hloc hruby hbetween := by
    have hpos := h.ruby (j + 1) loc' (Nat.succ_le_succ hij) hloc hruby fun m loc'' hm hlt hget => by
      obtain ⟨m, rfl⟩ := Nat.exists_eq_add_of_le' (Nat.le_trans (Nat.succ_pos i) hm)
      exact hbetween m loc'' (Nat.le_of_succ_le_succ hm) (Nat.lt_of_succ_lt_succ hlt) hget
    refine ⟨hpos.filenameAbs, hpos.filenameRel, hpos.lineNumber, hpos.pathIsSynthetic.trans ?_⟩
    exact decide_eq_decide.2 (not_congr (Nat.add_right_cancel_iff))
  native hnone := h.native fun j loc' hj hloc => by
    obtain ⟨j, rfl⟩ := Nat.exists_eq_add_of_le' (Nat.le_trans (Nat.succ_pos i) hj)
    exact hnone j loc' (Nat.le_of_succ_le_succ hj) hloc

theorem LocatesFrames.tail {loc : RawLocation} {frames : List RawLocation}
    {x : Option Location}
    (h : LocatesFrames junk rt depth minLoc (loc :: frames) (x :: ary)) :
    LocatesFrames junk rt depth minLoc frames ary where
  length := Nat.succ.inj h.length
  located i hi := by
    obtain ⟨location, hget, hlocation⟩ := h.located (i + 1) (Nat.succ_lt_succ hi)
    exact ⟨location, hget, hlocation.tail⟩

/-- A method that writes the place and the title of each frame, for a stack of valid frames. -/
theorem LocatesFrames.text_eq (hrt : rt.toVM.Lawful) {method : Location → Option Bytes}
    {title : ControlFrame → Bytes} (hstack : AllValid rt stack)
    (hmethod : ∀ frame ∈ stack, ∀ location, (stringToS location.path).Plain →
      DescribesFrame junk rt depth minLoc (locationOfFrame rt frame) location →
      method location = some (location.place.text (title frame)))
    (h : LocatesFrames junk rt depth minLoc (stack.map (locationOfFrame rt)) ary) :
    ary.map (·.bind method) = (backtraceText rt title stack).map some := by
  induction stack generalizing ary with
  | nil =>
    rw [List.length_eq_zero_iff.1 h.length]
    rfl
  | cons frame below ih =>
    obtain ⟨location, hget, hlocation⟩ := h.located 0 (Nat.succ_pos _)
    rcases ary with _ | ⟨x, ary⟩
    · cases hget
    obtain rfl := Option.some.inj hget
    obtain ⟨hplace, hplain⟩ := hlocation.place_eq hrt hstack
    obtain ⟨loc, hloc, hdescribes⟩ := hlocation.own
    obtain rfl := Option.some.inj hloc
    have hmem : frame ∈ frame :: below := List.mem_cons_self
    have hbelow := ih (fun f hf => hstack f (List.mem_cons_of_mem _ hf))
      (fun f hf => hmethod f (List.mem_cons_of_mem _ hf)) h.tail
    have htext := hmethod frame hmem location hplain hdescribes
    rw [hplace] at htext
    rw [backtraceText, if_pos (countsFrame_iff.2 (hstack frame hmem).2), List.map_cons,
      List.map_cons, hbelow]
    exact congrArg (· :: _) htext

/-- Frames that do not count leave no trace in the text. -/
theorem currentPlace_filter :
    currentPlace rt (stack.filter (countsFrame rt.toVM)) = currentPlace rt stack := by
  unfold currentPlace
  rw [List.find?_filter]
  congr 2
  funext frame
  cases countsFrame rt.toVM frame <;> simp

theorem backtraceText_filter (title : ControlFrame → Bytes) :
    backtraceText rt title (stack.filter (countsFrame rt.toVM)) =
      backtraceText rt title stack := by
  induction stack with
  | nil => rfl
  | cons frame below ih =>
    cases hcounts : countsFrame rt.toVM frame with
    | false =>
      rw [List.filter_cons_of_neg (by simp [hcounts]), ih, backtraceText,
        if_neg (by simp [hcounts])]
    | true =>
      have hplace := @currentPlace_filter rt (frame :: below)
      rw [List.filter_cons_of_pos hcounts] at hplace
      rw [List.filter_cons_of_pos hcounts, backtraceText, backtraceText, if_pos hcounts,
        if_pos hcounts, hplace, ih]

/-- The frames that are captured are those of the stack that count. -/
theorem capturedFrames_eq_stackFrames (rt : Runtime) (ec : ExecutionContext) (k : ℕ) :
    capturedFrames rt ec k =
      ((stackFrames ec k).filter (countsFrame rt.toVM)).map (locationOfFrame rt) := by
  unfold capturedFrames validFrames stackFrames
  rw [List.filter_map, List.map_map]
  rfl

theorem stackFrames_allValid {ec : ExecutionContext} {k : ℕ} (hec : ec.Lawful rt.toVM) :
    AllValid rt ((stackFrames ec k).filter (countsFrame rt.toVM)) := by
  intro frame hframe
  obtain ⟨hmem, hcounts⟩ := List.mem_filter.1 hframe
  obtain ⟨i, hi, rfl⟩ := List.mem_map.1 hmem
  rw [List.mem_range'_1] at hi
  exact ⟨hec i (by omega), countsFrame_iff.1 hcounts⟩

/-- `to_s` writes the label. -/
theorem toS_of_describes (hrt : rt.toVM.Lawful) (h : frame.Lawful rt.toVM)
    (hpath : (stringToS location.path).Plain)
    (hlocation : DescribesFrame junk rt depth minLoc (locationOfFrame rt frame) location) :
    location.toS = some (location.place.text (labelTitle rt frame)) := by
  have hlabel := hlocation.label_eq hrt h.toProper
  have hplain : (stringToS location.label).Plain := stringToS_plain fun s hs => by
    rw [hlabel] at hs
    obtain ⟨v, -, rfl⟩ := Option.map_eq_some_iff.1 hs
    rfl
  rw [Location.toS_eq hpath hplain, hlabel, stringToS_map]
  rfl

/-- `fancy_to_s` writes the name, when the buffer for it grows without loss. -/
theorem fancyToS_of_describes (h : frame.Lawful rt.toVM)
    (hname : (frameReferenceName rt depth frame).result = .ok ())
    (hproper : ∀ p ∈ (frameReferenceName rt depth frame).trace, p.Proper)
    (hclean : CleanGrowth initialBufsize (frameReferenceName rt depth frame).trace)
    (hpath : (stringToS location.path).Plain)
    (hlocation : DescribesFrame junk rt depth minLoc (locationOfFrame rt frame) location) :
    location.fancyToS = some (location.place.text (nameTitle rt depth frame)) := by
  obtain ⟨text, -, hiff, hrun⟩ := growPieces_iff initialBufsize_pos hproper
  obtain ⟨tr, str, hy, -, hg⟩ := hrun junk
  have hquery := hlocation.name
  have heq := @frameName_eq rt depth frame h.toProper minLoc
  rw [← heq] at hname hy
  rw [frameNameRbstr_of_ok junk hname, hy, mk_ok_bind, hg.finishValue, hiff.2 hclean] at hquery
  have hret : location.qualifiedMethodName =
      rbStrNew2 (textOf (frameReferenceName rt depth frame).trace) :=
    (Except.ok.inj hquery).symm
  have hplain : location.qualifiedMethodName.Plain := fun _ => by rw [hret]; rfl
  rw [Location.fancyToS_eq hpath hplain, hret]
  rfl

/-- From some depth on, the names of all frames are written. -/
theorem names_written (hrt : rt.toVM.Lawful) (hstack : AllValid rt stack) :
    ∃ N, ∀ depth, N ≤ depth → ∀ frame ∈ stack,
      (frameReferenceName rt depth frame).result = .ok () ∧
        ∀ p ∈ (frameReferenceName rt depth frame).trace, p.Proper := by
  obtain ⟨N, hN⟩ := @exists_common_bound
    (fun i n => ∀ frame, stack[i]? = some frame →
      (frameReferenceName rt n frame).result = .ok () ∧
        ∀ p ∈ (frameReferenceName rt n frame).trace, p.Proper) stack.length
    fun i hi => by
      obtain ⟨hlawful, hvalid⟩ := hstack _ (List.getElem_mem hi)
      obtain ⟨N, hN⟩ := (frameName_writes hrt hlawful hvalid MinimalLocation.zeroed).result
      refine ⟨N, fun n hn frame hget => ?_⟩
      rw [List.getElem?_eq_getElem hi] at hget
      obtain rfl := Option.some.inj hget
      have hname := hN n hn
      rwa [frameName_eq hlawful.toProper] at hname
  refine ⟨N, fun depth hdepth frame hframe => ?_⟩
  obtain ⟨i, hi, rfl⟩ := List.mem_iff_getElem.1 hframe
  exact hN depth hdepth i hi _ (List.getElem?_eq_getElem hi)

end

/-- **A backtrace as text.** For every live thread `to_s` returns, for the locations of its
backtrace from frame `k` on, the lines of the text of its stack; and so does `fancy_to_s`, with
names for labels, unless a name is one for which the buffer grows with a loss. The paths, the labels
and the names in these lines end at their first NUL (`stringText`, `nameTitle`). -/
theorem backtrace_text (rt : Runtime) (hrt : rt.toVM.Lawful) (thread : VALUE)
    (ec : ExecutionContext) (hthread : (rt.threadAt (threadOrCurrent rt thread)).ec = ec)
    (hec : ec.Lawful rt.toVM) (halive : isThreadAlive rt.toVM (threadOrCurrent rt thread))
    (k : ℕ) :
    ∃ N, ∀ depth, N ≤ depth → ∀ junk minLoc, ∃ ary,
      (collectBacktraceLocations junk rt depth minLoc thread k).result = .ok (some ary) ∧
      ary.map (·.bind Location.toS) =
        (backtraceText rt (labelTitle rt) (stackFrames ec k)).map some ∧
      ((∀ frame ∈ stackFrames ec k, countsFrame rt.toVM frame = true →
          CleanGrowth initialBufsize (frameReferenceName rt depth frame).trace) →
        ary.map (·.bind Location.fancyToS) =
          (backtraceText rt (nameTitle rt depth) (stackFrames ec k)).map some) := by
  have hstack := @stackFrames_allValid rt ec k hec
  obtain ⟨N, hN⟩ := collect_alive hrt hec halive hthread k
  obtain ⟨M, hM⟩ := names_written hrt hstack
  refine ⟨N + M, fun depth hdepth junk minLoc => ?_⟩
  obtain ⟨tr, ary, hrun, -, hlocates⟩ := hN depth (by omega) junk minLoc
  rw [capturedFrames_eq_stackFrames] at hlocates
  refine ⟨ary, hrun.result, ?_, fun hclean => ?_⟩
  · rw [← backtraceText_filter]
    apply hlocates.text_eq hrt hstack
    intro frame hframe location hpath hlocation
    exact toS_of_describes hrt (hstack frame hframe).1 hpath hlocation
  · rw [← backtraceText_filter]
    apply hlocates.text_eq hrt hstack
    intro frame hframe location hpath hlocation
    obtain ⟨hname, hproper⟩ := hM depth (by omega) frame hframe
    obtain ⟨hmem, hcounts⟩ := List.mem_filter.1 hframe
    exact fancyToS_of_describes (hstack frame hframe).1 hname hproper (hclean frame hmem hcounts)
      hpath hlocation

/-- A C function that is called by a method is in the file of the method, on its line. -/
theorem backtrace_text_cFrame :
    ∃ depth ary, (collectBacktraceLocations (fun _ => 0)
        (bootRuntime (bootThread false [cFrame 48, dummyFrame, rubyFrame 48])) depth
        MinimalLocation.zeroed 96 0).result = .ok (some ary) ∧
      ary.map (·.bind Location.toS) =
        [some (lit "/m.rb:1:in `c'"), some (lit "/m.rb:1:in `m'")] := by
  obtain ⟨N, hN⟩ := backtrace_text
    (bootRuntime (bootThread false [cFrame 48, dummyFrame, rubyFrame 48])) (bootVM_lawful _) 96 _
    rfl (stackOf_lawful fun frame hframe => by
      simp only [List.mem_cons, List.not_mem_nil, or_false] at hframe
      rcases hframe with rfl | rfl | rfl
      · exact cFrame_lawful _ 48
      · exact dummyFrame_lawful _
      · exact rubyFrame_lawful _ 48) (bootThread_alive _) 0
  obtain ⟨ary, hrun, htext, -⟩ := hN N le_rfl (fun _ => 0) MinimalLocation.zeroed
  exact ⟨N, ary, hrun, htext.trans (by decide)⟩

end Backtracie
