import Backtracie.MinimalFilename

/-!
# Labels and paths as Ruby strings

The labels and paths of a frame are strings of the VM. A `…Rbstr` function copies such a string,
with its length, to a growable builder, and makes a new string of it with `rb_str_new2`, which reads
up to the first NUL and knows nothing of encodings. `ruby_strings_iff`: the new string is equal to
the one of the VM exactly when that has no NUL and is of the encoding `ASCII-8BIT`.
-/

namespace Backtracie

open CMem Traced

/-- A function of the interface that returns a string of the VM, with its flag. -/
inductive TextQuery
  | label (base : Bool)
  | filename (absolute : Bool)

namespace TextQuery

section

variable (junk : ℕ → UInt8) (rt : Runtime)

/-- The string of the VM that is asked for, if the frame has it. -/
def source (frame : ControlFrame) : TextQuery → Option VALUE
  | .label base => labelOf rt.toVM frame base
  | .filename absolute => pathOf rt.toVM frame absolute

/-- The query for a Ruby string. -/
def rbstr (loc : RawLocation) : TextQuery → Comp (Option RString)
  | .label base => frameLabelRbstr junk rt loc base
  | .filename absolute => frameFilenameRbstr junk rt loc absolute

/-- The same query for a buffer of the caller. -/
def cstr (loc : RawLocation) (buf : Bytes) : TextQuery → Comp (ℕ × Bytes)
  | .label base => frameLabelCstr junk rt loc base buf
  | .filename absolute => frameFilenameCstr junk rt loc absolute buf

end

end TextQuery

/-- The string of the VM reaches Ruby as it is: an equal string is returned, of the length that the
`…Cstr` function returns for every buffer that has room for it; `nil` only if there is no string. -/
structure ReachesRuby (junk : ℕ → UInt8) (rt : Runtime) (frame : ControlFrame) (loc : RawLocation)
    (query : TextQuery) : Prop where
  string : ∀ v, query.source rt frame = some v →
    (query.rbstr junk rt loc).result = .ok (some (rt.rstring v)) ∧
    ∀ buf : Bytes, (rt.rstring v).bytes.length < buf.length → ∃ buf',
      (query.cstr junk rt loc buf).result = .ok ((rt.rstring v).bytes.length, buf')
  nil : ∃ ret, (query.rbstr junk rt loc).result = .ok ret ∧
    (ret = none ↔ query.source rt frame = none)

variable {junk : ℕ → UInt8} {rt : Runtime} {frame : ControlFrame} {query : TextQuery} {v : VALUE}

/-! ## What the queries do -/

theorem TextQuery.rbstr_eq (hrt : rt.toVM.Lawful) (h : frame.Proper rt.toVM) (query : TextQuery) :
    query.rbstr junk rt (locationOfFrame rt frame) =
      rbstrQuery junk (writeFound rt.toVM (query.source rt frame)) := by
  cases query with
  | label base => exact congrArg (rbstrQuery junk) (frameLabel_eq h base)
  | filename absolute => exact congrArg (rbstrQuery junk) (frameFilename_eq hrt h absolute)

theorem TextQuery.cstr_eq (hrt : rt.toVM.Lawful) (h : frame.Proper rt.toVM) (query : TextQuery)
    (buf : Bytes) :
    query.cstr junk rt (locationOfFrame rt frame) buf =
      cstrQuery junk buf (writeFound rt.toVM (query.source rt frame)) := by
  cases query with
  | label base => exact congrArg (cstrQuery junk buf) (frameLabel_eq h base)
  | filename absolute => exact congrArg (cstrQuery junk buf) (frameFilename_eq hrt h absolute)

theorem TextQuery.source_string (hrt : rt.toVM.Lawful) (h : frame.Proper rt.toVM)
    (hv : query.source rt frame = some v) : rt.rbType v = .tString := by
  cases query with
  | label base => exact labelOf_string hrt h hv
  | filename absolute => exact pathOf_string hrt h hv

theorem writeFound_some (hv : rt.rbType v = .tString) :
    (writeFound rt.toVM (some v)).Yields [.appendValue (some (rt.rstring v).bytes)] true := by
  have hcontent : rt.stringContent v = some (rt.rstring v).bytes := if_pos hv
  rw [← hcontent]
  exact (Yields.emit _).bind (Yields.pure true)

/-- One string is appended without loss, whatever the buffer has to grow to. -/
theorem cleanGrowth_appendValue {size : ℕ} {val : Option Bytes} :
    CleanGrowth size [.appendValue val] := by
  intro before cat after hpieces
  cases before with
  | nil => cases hpieces
  | cons p before =>
    obtain ⟨-, htail⟩ := List.cons.inj hpieces
    cases before <;> cases htail

/-- A string that was found is read up to the first NUL. -/
theorem rbstrQuery_some (hv : rt.rbType v = .tString) :
    (rbstrQuery junk (writeFound rt.toVM (some v))).result =
      .ok (some (rbStrNew2 (rt.rstring v).bytes)) := by
  have hyields := writeFound_some hv
  obtain ⟨text, -, hclean, hrun⟩ :=
    growPieces_iff initialBufsize_pos (proper_appendValue (rt.rstring v).bytes)
  obtain ⟨tr, str, hy, -, hg⟩ := hrun junk
  have htext : text = (rt.rstring v).bytes := by
    rw [hclean.2 cleanGrowth_appendValue, textOf_appendValue]
  rw [rbstrQuery_of_ok junk hyields.result, hyields.trace, hy, mk_ok_bind, hg.finishFound, htext]
  rfl

theorem rbstrQuery_none :
    (rbstrQuery junk (writeFound rt.toVM none)).result = .ok none := by
  obtain ⟨ret, hsome, hret⟩ := @rbstrQuery_returns (writeFound rt.toVM none) false rfl (by
    intro p hp
    cases hp)
  obtain rfl : ret = none := by
    cases ret with
    | none => rfl
    | some s => cases hsome
  exact hret junk

/-- Reading up to the first NUL and forgetting the encoding. -/
theorem rbStrNew2_eq_iff {s : RString} :
    rbStrNew2 s.bytes = s ↔ NulFree s.bytes ∧ s.encoding = encAscii8bit := by
  cases s with
  | mk bytes encoding =>
    rw [rbStrNew2, RString.mk.injEq, cstr_eq_self_iff]
    exact and_congr_right fun _ => eq_comm

/-! ## When a string arrives as it is -/

/-- **The labels and paths of a captured frame reach Ruby unaltered** if and only if they have no
NUL and are of the encoding `ASCII-8BIT`. -/
theorem ruby_strings_iff (junk : ℕ → UInt8) (rt : Runtime) (hrt : rt.toVM.Lawful)
    (ec : ExecutionContext) (i : ℕ) (loc rawLoc : RawLocation)
    (hframe : (ec.frameAt (ec.cfp + i)).Lawful rt.toVM)
    (hcapture : captureFrameForExecutionContext rt ec i loc = .ok (true, rawLoc))
    (query : TextQuery) :
    ReachesRuby junk rt (ec.frameAt (ec.cfp + i)) rawLoc query ↔
      ∀ v, query.source rt (ec.frameAt (ec.cfp + i)) = some v →
        NulFree (rt.rstring v).bytes ∧ (rt.rstring v).encoding = encAscii8bit := by
  obtain ⟨-, -, hloc⟩ := capture_ok hcapture
  obtain rfl : rawLoc = locationOfFrame rt (ec.frameAt (ec.cfp + i)) := hloc
  have hproper := hframe.toProper
  constructor
  · intro hreaches v hv
    obtain ⟨hret, -⟩ := hreaches.string v hv
    rw [TextQuery.rbstr_eq hrt hproper, hv,
      rbstrQuery_some (TextQuery.source_string hrt hproper hv)] at hret
    exact rbStrNew2_eq_iff.1 (Option.some.inj (Except.ok.inj hret))
  · intro hplain
    refine ⟨fun v hv => ?_, ?_⟩
    · have hstring := TextQuery.source_string hrt hproper hv
      rw [TextQuery.rbstr_eq hrt hproper, hv, rbstrQuery_some hstring,
        rbStrNew2_eq_iff.2 (hplain v hv)]
      refine ⟨rfl, fun buf hbuf => ?_⟩
      rw [TextQuery.cstr_eq hrt hproper, hv]
      obtain ⟨buf', hres, -⟩ :=
        @cstrQuery_appendValue junk _ _ _ _ buf (writeFound_some hstring) hbuf
      exact ⟨buf', hres⟩
    · rw [TextQuery.rbstr_eq hrt hproper]
      rcases hsource : query.source rt (ec.frameAt (ec.cfp + i)) with _ | v
      · exact ⟨none, rbstrQuery_none, iff_of_true rfl rfl⟩
      · refine ⟨_, rbstrQuery_some (TextQuery.source_string hrt hproper hsource), ?_⟩
        exact iff_of_false (Option.some_ne_none _) (Option.some_ne_none _)

/-- The VM of `bootVM`, where the method `m` has the given label. -/
def labelRuntime (label : RString) : Runtime :=
  { toVM := { bootVM (bootThread false [rubyFrame 48]) with
      rstring := fun v =>
        if v = 156 then label else (bootVM (bootThread false [rubyFrame 48])).rstring v }
    mainObjectInstance := 48 }

theorem labelRuntime_lawful (label : RString) : (labelRuntime label).toVM.Lawful :=
  (bootVM_lawful _).withContents _ (bootVM (bootThread false [rubyFrame 48])).rbIseqLineNo

theorem rubyFrame_labelRuntime (label : RString) :
    (rubyFrame 48).Lawful (labelRuntime label).toVM where
  iseq := .inr ⟨show rtest 56 by decide, rfl⟩
  methodEntry := .inr ⟨show rtest 64 by decide, rfl⟩
  rubyframe_iseq _ := show 56 ≠ 0 by decide

/-- A label of the encoding `ASCII-8BIT`. -/
theorem ruby_strings_iff_binary :
    ReachesRuby (fun _ => 0) (labelRuntime { bytes := lit "m", encoding := encAscii8bit })
      (rubyFrame 48)
      (locationOfFrame (labelRuntime { bytes := lit "m", encoding := encAscii8bit }) (rubyFrame 48))
      (.label false) := by
  refine (ruby_strings_iff (fun _ => 0)
    (labelRuntime { bytes := lit "m", encoding := encAscii8bit }) (labelRuntime_lawful _)
    (stackOf [rubyFrame 48]) 0 RawLocation.zeroed _ (rubyFrame_labelRuntime _) rfl
    (.label false)).2 fun v hv => ?_
  obtain rfl := Option.some.inj hv
  exact ⟨by decide, rfl⟩

theorem frameLabelRbstr_rubyFrame (label : RString) :
    (frameLabelRbstr junk (labelRuntime label)
      (locationOfFrame (labelRuntime label) (rubyFrame 48)) false).result =
        .ok (some (rbStrNew2 label.bytes)) := by
  unfold frameLabelRbstr
  rw [frameLabel_eq (rubyFrame_labelRuntime label).toProper]
  exact rbstrQuery_some (v := 156) rfl

/-- **The label of a method whose name has a NUL**, in UTF-8: it is cut off at the NUL and returned
as `ASCII-8BIT`, although the function for buffers returns its whole length. -/
theorem label_with_nul :
    (labelRuntime { bytes := [97, 0, 98], encoding := 1 }).toVM.Lawful ∧
    (rubyFrame 48).Lawful (labelRuntime { bytes := [97, 0, 98], encoding := 1 }).toVM ∧
    captureFrameForExecutionContext (labelRuntime { bytes := [97, 0, 98], encoding := 1 })
        (stackOf [rubyFrame 48]) 0 RawLocation.zeroed =
      .ok (true, locationOfFrame (labelRuntime { bytes := [97, 0, 98], encoding := 1 })
        (rubyFrame 48)) ∧
    (frameLabelRbstr (fun _ => 0) (labelRuntime { bytes := [97, 0, 98], encoding := 1 })
        (locationOfFrame (labelRuntime { bytes := [97, 0, 98], encoding := 1 }) (rubyFrame 48))
        false).result = .ok (some { bytes := [97], encoding := encAscii8bit }) ∧
    (∀ buf : Bytes, 3 < buf.length → ∃ buf',
      (frameLabelCstr (fun _ => 0) (labelRuntime { bytes := [97, 0, 98], encoding := 1 })
        (locationOfFrame (labelRuntime { bytes := [97, 0, 98], encoding := 1 }) (rubyFrame 48))
        false buf).result = .ok (3, buf')) ∧
    ¬ReachesRuby (fun _ => 0) (labelRuntime { bytes := [97, 0, 98], encoding := 1 }) (rubyFrame 48)
      (locationOfFrame (labelRuntime { bytes := [97, 0, 98], encoding := 1 }) (rubyFrame 48))
      (.label false) := by
  refine ⟨labelRuntime_lawful _, rubyFrame_labelRuntime _, rfl, frameLabelRbstr_rubyFrame _,
    fun buf hbuf => ?_, fun hreaches => ?_⟩
  · unfold frameLabelCstr
    rw [frameLabel_eq (rubyFrame_labelRuntime _).toProper]
    have hyields : (writeFound (labelRuntime { bytes := [97, 0, 98], encoding := 1 }).toVM
        (some 156)).Yields [.appendValue (some [97, 0, 98])] true := writeFound_some rfl
    obtain ⟨buf', hres, -⟩ := @cstrQuery_appendValue (fun _ => 0) _ _ _ _ buf hyields hbuf
    exact ⟨buf', hres⟩
  · obtain ⟨hret, -⟩ := hreaches.string 156 rfl
    have hlabel := (@frameLabelRbstr_rubyFrame (fun _ => 0) _).symm.trans hret
    exact absurd (Option.some.inj (Except.ok.inj hlabel)) (by decide)

end Backtracie
