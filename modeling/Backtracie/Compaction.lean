import Backtracie.RelocatedQueries
import Backtracie.Lawful

/-!
# The main object under compaction

`Init_backtracie_native_extension` keeps the address of the main object in a C global, and the
extension recognises the object by that address. The global is not registered with the garbage
collector; so a compaction can move the object and leave the global behind.

A `Process` is a VM with the extension loaded and a frame wrapper; it answers captures and queries
while the program runs and the heap is compacted.

* `run_moved`: a run in which no compaction moves the main object gives the same answers as the
  run without the compactions;
* `main_recognised_if_unmoved`: and it recognises the main object, in every state;
* `main_forgotten_after_move`: a run in which a compaction moves it.
-/

namespace Backtracie

open CMem Traced

/-! ## A process -/

/-- The C globals of `backtracie.c` that refer to objects. -/
structure Globals where
  backtracieMainObjectInstance : VALUE
  backtracieModule : VALUE
  backtracieLocationClass : VALUE

/-- What `Init_backtracie_native_extension` sets the globals to: the value of
`TOPLEVEL_BINDING.eval("self")`, and of two constants. -/
def initBacktracieNativeExtension (mainObject backtracieModule locationClass : VALUE) : Globals :=
  { backtracieMainObjectInstance := mainObject
    backtracieModule := backtracieModule
    backtracieLocationClass := locationClass }

/-- The objects in the variables that it passes to `rb_global_variable`. These are pinned. -/
def Globals.pinned (globals : Globals) : List VALUE :=
  [globals.backtracieModule, globals.backtracieLocationClass]

/-- A VM with the extension loaded, and a frame wrapper. -/
structure Process where
  vm : VM
  /-- Where the main object is. -/
  mainObject : VALUE
  globals : Globals
  wrapper : FrameWrapper
  /-- Of each captured frame, whether its self was the main object. -/
  mains : List Bool

/-- The process after the extension was loaded and a wrapper was built. -/
def Process.start (vm : VM) (mainObject backtracieModule locationClass : VALUE) (count : ℕ) :
    Process :=
  { vm := vm
    mainObject := mainObject
    globals := initBacktracieNativeExtension mainObject backtracieModule locationClass
    wrapper := frameWrapperNew count
    mains := [] }

namespace Process

/-- What the functions of the extension see. -/
def runtime (p : Process) : Runtime :=
  { toVM := p.vm, mainObjectInstance := p.globals.backtracieMainObjectInstance }

/-- The self of frame `i` of a thread. -/
def selfOf (p : Process) (thread : VALUE) (i : ℕ) : VALUE :=
  ((p.vm.threadAt thread).ec.frameAt ((p.vm.threadAt thread).ec.cfp + i)).self

end Process

/-- What happens to a process. -/
inductive Event
  /-- The program runs, and leaves the VM in another state. Nothing is moved. -/
  | run (vm : VM)
  /-- A frame of a thread is captured behind those in the wrapper. -/
  | capture (thread : VALUE) (i : ℕ)
  | query (query : Query) (slot : ℕ)
  /-- The heap is compacted. -/
  | compact (σ : Relocation)

/-- What the owner of the wrapper sees: whether a frame was captured, what a query writes. -/
inductive Answer
  | captured (valid : Bool)
  | text (written : Emit Unit)

section

variable (depth : ℕ) (minLoc : MinimalLocation)

/-- Frame `i` of a thread is captured behind the frames in the wrapper. -/
def Process.capture (p : Process) (thread : VALUE) (i : ℕ) : Traced Answer Fault Process := do
  let slot ← lift (frameAt p.wrapper.frames p.wrapper.len)
  let (valid, loc) ← lift (captureFrameForThread p.runtime thread i slot)
  emit (.captured valid)
  let wrapper := p.wrapper.setSlot p.wrapper.len loc
  if valid then
    pure { p with
      wrapper := wrapper.setLen (wrapper.len + 1)
      mains := p.mains ++ [decide (p.selfOf thread i = p.mainObject)] }
  else pure { p with wrapper := wrapper }

/-- A query about a slot in use. -/
def Process.query (p : Process) (query : Query) (slot : ℕ) : Traced Answer Fault Process := do
  let loc ← lift (frameAt (p.wrapper.frames.take p.wrapper.len) slot)
  emit (.text ((query.function minLoc loc).writes p.runtime depth))
  pure p

/-- The VM updates its own references, and the wrapper is compacted; the globals stay. -/
def Process.compact (p : Process) (σ : Relocation) : Traced Answer Fault Process := do
  let wrapper ← lift (frameWrapperCompact σ p.wrapper).result
  pure { p with vm := p.vm.relocate σ, mainObject := σ p.mainObject, wrapper := wrapper }

/-- What an event does to the process. -/
def Process.step (p : Process) : Event → Traced Answer Fault Process
  | .run vm => pure { p with vm := vm }
  | .capture thread i => p.capture thread i
  | .query query slot => p.query depth minLoc query slot
  | .compact σ => p.compact σ

/-- A run of a process. -/
def Process.run (p : Process) (events : List Event) : Traced Answer Fault Process :=
  fold (Process.step depth minLoc) p events

end

/-- The events of a run without its compactions, when the objects were moved by `τ` before: the
same program runs, with its objects where they were. -/
def withoutCompactions : Relocation → List Event → List Event
  | _, [] => []
  | τ, .run vm :: events => .run (vm.relocate τ.symm) :: withoutCompactions τ events
  | τ, .capture thread i :: events => .capture (τ.symm thread) i :: withoutCompactions τ events
  | τ, .query query slot :: events => .query query slot :: withoutCompactions τ events
  | τ, .compact σ :: events => withoutCompactions (τ.trans σ) events

/-- The frames whose self was the main object, and no others, are recognised: they were captured
with their self, and their names have the qualifier of the main object. -/
def Process.RecognisesMain (p : Process) : Prop :=
  p.mains.length = p.wrapper.len ∧
  ∀ (j : ℕ) (loc : RawLocation) (isMain : Bool), p.wrapper.frames[j]? = some loc →
    p.mains[j]? = some isMain →
    (isMain = true → loc.selfIsRealSelf = true) ∧
    ∀ (depth : ℕ) (before minLoc : MinimalLocation),
      rawLocationToMinimalLocation p.runtime loc before = .ok minLoc →
      (minimalLocationMethodQualifier p.runtime depth minLoc = append "Object$<main>#" ↔
        isMain = true)

/-! ## The qualifier of the main object -/

section

variable {rt : Runtime} {depth : ℕ} {loc : RawLocation} {before minLoc : MinimalLocation}
  {v : VALUE}

theorem append_ne {s t : String} (h : lit s ≠ lit t) : append s ≠ append t := by
  intro heq
  have htrace : [Piece.append (lit s)] = [Piece.append (lit t)] := congrArg Traced.trace heq
  exact h (Piece.append.inj (List.cons.inj htrace).1)

/-- Something that ends with one literal is not another literal. -/
theorem bind_append_ne {write : Emit Unit} {s t : String} (h : lit s ≠ lit t) :
    (write >>= fun _ => append s) ≠ append t := by
  intro heq
  rcases write with ⟨tr, e | a⟩
  · have hresult : (.error e : Except Fault Unit) = .ok () := congrArg Traced.result heq
    cases hresult
  · have htrace : tr ++ [Piece.append (lit s)] = [Piece.append (lit t)] :=
      congrArg Traced.trace heq
    have hlast := congrArg List.getLast? htrace
    rw [List.getLast?_concat, List.getLast?_singleton] at hlast
    exact h (Piece.append.inj (Option.some.inj hlast))

/-- Only a record that holds the main object has its qualifier. -/
theorem qualifier_eq_main_iff :
    minimalLocationMethodQualifier rt depth minLoc = append "Object$<main>#" ↔
      minLoc.methodQualifierContents = methodQualifierContentsSelf ∧
        minLoc.methodQualifier = rt.mainObjectInstance := by
  unfold minimalLocationMethodQualifier methodTargetQualifier
  by_cases hmain : minLoc.methodQualifierContents = methodQualifierContentsSelf ∧
      minLoc.methodQualifier = rt.mainObjectInstance
  · exact iff_of_true (if_pos hmain) hmain
  · refine iff_of_false ?_ hmain
    rw [if_neg hmain]
    split
    · exact append_ne (by decide)
    split
    · exact bind_append_ne (by decide)
    split
    · exact bind_append_ne (by decide)
    split
    · exact bind_append_ne (by decide)
    split
    · exact bind_append_ne (by decide)
    · exact append_ne (by decide)

/-- The minimal record holds self if and only if the raw one does. -/
theorem toMinimalLocation_self_iff
    (h : rawLocationToMinimalLocation rt loc before = .ok minLoc) :
    minLoc.methodQualifierContents = methodQualifierContentsSelf ∧ minLoc.methodQualifier = v ↔
      loc.selfIsRealSelf = true ∧ loc.selfOrSelfClass = v := by
  obtain ⟨minLoc₁, -, h⟩ := except_bind_ok h
  obtain ⟨minLoc₂, -, h⟩ := except_bind_ok h
  unfold fillMethodQualifier at h
  split at h
  · next hself =>
    cases h
    rw [hself]
    exact and_congr_left' (iff_of_true rfl rfl)
  · next hself =>
    refine iff_of_false (fun hcontents => ?_) fun hreal => hself hreal.1
    split at h
    · obtain ⟨cme, -, h⟩ := except_bind_ok h
      cases h
      exact cmeClass_ne_self hcontents.1
    · cases h
      exact selfClass_ne_self hcontents.1

end

/-! ## Runs without compactions -/

/-- The global has the address of the main object, and of the captured frames exactly those hold
it whose self it was. -/
structure KeepsMain (p : Process) : Prop where
  global : p.globals.backtracieMainObjectInstance = p.mainObject
  room : p.wrapper.len ≤ p.wrapper.frames.length
  mains : p.mains.length = p.wrapper.len
  slots : ∀ (j : ℕ) (loc : RawLocation) (isMain : Bool), p.wrapper.frames[j]? = some loc →
    p.mains[j]? = some isMain →
    (loc.selfIsRealSelf = true ∧ loc.selfOrSelfClass = p.mainObject ↔ isMain = true)

section

variable {depth : ℕ} {minLoc : MinimalLocation} {p q : Process} {τ : Relocation}

theorem keepsMain_start (vm : VM) (mainObject backtracieModule locationClass : VALUE) (count : ℕ) :
    KeepsMain (Process.start vm mainObject backtracieModule locationClass count) where
  global := rfl
  room := Nat.zero_le _
  mains := rfl
  slots j loc isMain _ h := by cases h

/-- A frame keeps the main object exactly when that is its self. -/
theorem locationOfFrame_main_iff {rt : Runtime} {frame : ControlFrame} :
    (locationOfFrame rt frame).selfIsRealSelf = true ∧
        (locationOfFrame rt frame).selfOrSelfClass = rt.mainObjectInstance ↔
      frame.self = rt.mainObjectInstance := by
  unfold locationOfFrame
  simp only [decide_eq_true_eq]
  constructor
  · rintro ⟨hkeeps, hself⟩
    rwa [if_pos hkeeps] at hself
  · intro hself
    have hkeeps : keepsSelf rt frame.self := .inl (.inl hself)
    exact ⟨hkeeps, by rwa [if_pos hkeeps]⟩

theorem KeepsMain.recognises (h : KeepsMain p) : p.RecognisesMain := by
  refine ⟨h.mains, ?_⟩
  intro j loc isMain hloc hmain
  constructor
  · intro htrue
    exact ((h.slots j loc isMain hloc hmain).2 htrue).1
  · intro depth before minLoc hmin
    rw [qualifier_eq_main_iff, toMinimalLocation_self_iff hmin, ← h.slots j loc isMain hloc hmain,
      ← h.global]
    rfl

/-- The state after a capture that returned `true`. -/
theorem keepsMain_capture (h : KeepsMain p) {thread : VALUE} {i : ℕ} {slot loc : RawLocation}
    (hslot : p.wrapper.frames[p.wrapper.len]? = some slot)
    (hcapture : captureFrameForThread p.runtime thread i slot = .ok (true, loc)) :
    KeepsMain { p with
      wrapper := (p.wrapper.setSlot p.wrapper.len loc).setLen (p.wrapper.len + 1)
      mains := p.mains ++ [decide (p.selfOf thread i = p.mainObject)] } := by
  have hlt : p.wrapper.len < p.wrapper.frames.length := (List.getElem?_eq_some_iff.1 hslot).1
  obtain ⟨-, hcapture⟩ := captureForThread_true hcapture
  obtain ⟨-, -, rfl⟩ := capture_ok hcapture
  refine ⟨h.global, ?_, ?_, fun j loc isMain hloc hmain => ?_⟩
  · show p.wrapper.len + 1 ≤ (p.wrapper.frames.set _ _).length
    rw [List.length_set]
    exact hlt
  · rw [List.length_append, h.mains]
    rfl
  · change (p.wrapper.frames.set p.wrapper.len _)[j]? = some loc at hloc
    change (p.mains ++ [_])[j]? = some isMain at hmain
    rcases Nat.lt_trichotomy j p.wrapper.len with hj | rfl | hj
    · rw [List.getElem?_set_ne (Nat.ne_of_gt hj)] at hloc
      rw [List.getElem?_append_left (h.mains ▸ hj)] at hmain
      exact h.slots j loc isMain hloc hmain
    · rw [List.getElem?_set_self hlt] at hloc
      rw [← h.mains, List.getElem?_concat_length] at hmain
      cases hloc
      cases hmain
      rw [if_pos rfl, decide_eq_true_eq]
      show _ ∧ _ = p.mainObject ↔ _
      rw [← h.global]
      exact locationOfFrame_main_iff
    · rw [List.getElem?_eq_none (by
        rw [List.length_append, h.mains]
        exact hj)] at hmain
      cases hmain

end

/-! ## Runs in step -/

/-- `p` is `q` with the objects moved by `τ`, which leaves the main object where it is. -/
structure Moved (mainObject : VALUE) (τ : Relocation) (p q : Process) : Prop where
  vm : p.vm = q.vm.relocate τ
  main : τ mainObject = mainObject
  left : p.mainObject = mainObject
  right : q.mainObject = mainObject
  globals : p.globals = q.globals
  wrapper : p.wrapper = q.wrapper.compacted τ q.wrapper.len
  mains : p.mains = q.mains
  keeps : KeepsMain q

section

variable {depth : ℕ} {minLoc : MinimalLocation} {p q : Process} {τ : Relocation}
  {mainObject : VALUE}

theorem moved_refl (h : KeepsMain p) : Moved p.mainObject .refl p p where
  vm := (VM.relocate_refl p.vm).symm
  main := rfl
  left := rfl
  right := rfl
  globals := rfl
  wrapper := compacted_id.symm
  mains := rfl
  keeps := h

namespace Moved

/-- The extension sees the VM moved, and its global moved, as the main object is not. -/
theorem runtime (h : Moved mainObject τ p q) : p.runtime = q.runtime.relocate τ := by
  unfold Process.runtime Runtime.relocate
  rw [h.vm, h.globals, h.keeps.global, h.right, h.main]

theorem len (h : Moved mainObject τ p q) : p.wrapper.len = q.wrapper.len := by
  rw [h.wrapper]
  rfl

theorem room (h : Moved mainObject τ p q) : p.wrapper.len ≤ p.wrapper.frames.length := by
  rw [h.len, h.wrapper, length_compacted]
  exact h.keeps.room

/-- The slot that is captured into. -/
theorem slot (h : Moved mainObject τ p q) :
    frameAt p.wrapper.frames p.wrapper.len = frameAt q.wrapper.frames q.wrapper.len := by
  unfold frameAt
  rw [h.len, h.wrapper, compacted_getElem?_self h.keeps.room, length_compacted]

theorem selfOf (h : Moved mainObject τ p q) (thread : VALUE) (i : ℕ) :
    p.selfOf thread i = p.mainObject ↔ q.selfOf (τ.symm thread) i = q.mainObject := by
  have hself : p.selfOf thread i = τ (q.selfOf (τ.symm thread) i) := by
    unfold Process.selfOf
    rw [h.vm]
    rfl
  rw [hself, h.left, h.right]
  conv_lhs => rw [← h.main]
  exact τ.apply_inj

/-- A compaction of the one keeps it in step with the other, if it leaves the main object. -/
theorem compact (h : Moved mainObject τ p q) {σ : Relocation} (hmain : σ mainObject = mainObject) :
    ∃ p', (p.compact σ).Yields [] p' ∧ Moved mainObject (τ.trans σ) p' q := by
  refine ⟨{ p with
    vm := p.vm.relocate σ
    mainObject := σ p.mainObject
    wrapper := p.wrapper.compacted σ p.wrapper.len },
    ?_, ?_, ?_, ?_, h.right, h.globals, ?_, h.mains, h.keeps⟩
  · unfold Process.compact
    rw [(frameWrapperCompact_yields σ h.room).result]
    rfl
  · show p.vm.relocate σ = q.vm.relocate (τ.trans σ)
    rw [h.vm, VM.relocate_trans]
  · show σ (τ mainObject) = mainObject
    rw [h.main, hmain]
  · show σ p.mainObject = mainObject
    rw [h.left, hmain]
  · show p.wrapper.compacted σ p.wrapper.len = q.wrapper.compacted (τ.trans σ) q.wrapper.len
    rw [h.len, h.wrapper, compacted_compacted h.keeps.room]
    rfl

theorem run (h : Moved mainObject τ p q) (vm : VM) :
    Moved mainObject τ { p with vm := vm } { q with vm := vm.relocate τ.symm } where
  vm := (VM.relocate_symm τ vm).symm
  main := h.main
  left := h.left
  right := h.right
  globals := h.globals
  wrapper := h.wrapper
  mains := h.mains
  keeps := ⟨h.keeps.global, h.keeps.room, h.keeps.mains, h.keeps.slots⟩

/-- A frame that both have captured. -/
theorem captured (h : Moved mainObject τ p q) {thread : VALUE} {i : ℕ} {slot loc : RawLocation}
    (hslot : q.wrapper.frames[q.wrapper.len]? = some slot)
    (hcapture : captureFrameForThread q.runtime (τ.symm thread) i slot = .ok (true, loc)) :
    Moved mainObject τ
      { p with
        wrapper := (p.wrapper.setSlot p.wrapper.len (frameCompact τ loc)).setLen (p.wrapper.len + 1)
        mains := p.mains ++ [decide (p.selfOf thread i = p.mainObject)] }
      { q with
        wrapper := (q.wrapper.setSlot q.wrapper.len loc).setLen (q.wrapper.len + 1)
        mains := q.mains ++ [decide (q.selfOf (τ.symm thread) i = q.mainObject)] } where
  vm := h.vm
  main := h.main
  left := h.left
  right := h.right
  globals := h.globals
  wrapper := by
    have hlt : q.wrapper.len < q.wrapper.frames.length := (List.getElem?_eq_some_iff.1 hslot).1
    show (p.wrapper.setSlot p.wrapper.len (frameCompact τ loc)).setLen (p.wrapper.len + 1) =
      ((q.wrapper.setSlot q.wrapper.len loc).compacted τ (q.wrapper.len + 1)).setLen
        (q.wrapper.len + 1)
    rw [h.len, ← compacted_setSlot hlt, h.wrapper]
  mains := by
    show p.mains ++ [decide _] = q.mains ++ [decide _]
    rw [h.mains, decide_eq_decide.2 (h.selfOf thread i)]
  keeps := keepsMain_capture h.keeps hslot hcapture

theorem capture (h : Moved mainObject τ p q) (thread : VALUE) (i : ℕ) :
    Matches (Moved mainObject τ) (p.capture thread i) (q.capture (τ.symm thread) i) := by
  unfold Process.capture
  cases hslot : frameAt q.wrapper.frames q.wrapper.len with
  | error e =>
    rw [h.slot, hslot]
    exact .error [] e
  | ok slot =>
    have hcapture := captureFrameForThread_relocate τ q.runtime (τ.symm thread) i slot slot
    rw [← h.runtime, Relocation.apply_symm_apply] at hcapture
    have hq := getElem?_of_frameAt hslot
    have hp := getElem?_of_frameAt (h.slot.trans hslot)
    rw [h.slot, hslot, lift_ok, pure_bind, pure_bind, hcapture]
    cases hresult : captureFrameForThread q.runtime (τ.symm thread) i slot with
    | error e => exact .error [] e
    | ok capture =>
      obtain ⟨valid, loc⟩ := capture
      cases valid with
      | true => exact .ok [Answer.captured true] (h.captured hq hresult)
      | false =>
        -- both slots stay as they were
        obtain rfl := captureForThread_false hresult
        refine .ok [Answer.captured false] ?_
        show Moved mainObject τ { p with wrapper := p.wrapper.setSlot p.wrapper.len loc }
          { q with wrapper := q.wrapper.setSlot q.wrapper.len loc }
        rw [setSlot_self hp, setSlot_self hq]
        exact h

theorem query (h : Moved mainObject τ p q) (query : Query) (slot : ℕ) :
    Matches (Moved mainObject τ) (p.query depth minLoc query slot)
      (q.query depth minLoc query slot) := by
  have htake : p.wrapper.frames.take p.wrapper.len =
      (q.wrapper.frames.take q.wrapper.len).map (frameCompact τ) := by
    rw [h.len, h.wrapper, take_compacted h.keeps.room]
  unfold Process.query
  rw [htake, frameAt_map]
  cases frameAt (q.wrapper.frames.take q.wrapper.len) slot with
  | error e => exact .error [] e
  | ok loc =>
    have hwrites := query_writes_relocate τ q.runtime loc minLoc depth query
    rw [← h.runtime] at hwrites
    show Matches _ (emit (Answer.text ((query.function minLoc (frameCompact τ loc)).writes
      p.runtime depth)) >>= fun _ => pure p) _
    rw [hwrites]
    exact .ok [Answer.text _] h

end Moved

/-- **A run in which the main object is not moved** is in step with the run without the
compactions. -/
theorem run_moved (h : Moved mainObject τ p q) {events : List Event}
    (hmain : ∀ σ, .compact σ ∈ events → σ mainObject = mainObject) :
    Matches (fun p' q' => ∃ τ', Moved mainObject τ' p' q') (p.run depth minLoc events)
      (q.run depth minLoc (withoutCompactions τ events)) := by
  induction events generalizing p q τ with
  | nil => exact .ok [] ⟨τ, h⟩
  | cons event events ih =>
    have hrest : ∀ σ, .compact σ ∈ events → σ mainObject = mainObject :=
      fun σ hσ => hmain σ (List.mem_cons_of_mem event hσ)
    cases event with
    | run vm => exact ih (h.run vm) hrest
    | capture thread i => exact (h.capture thread i).bind fun p' q' h' => ih h' hrest
    | query query slot => exact (h.query query slot).bind fun p' q' h' => ih h' hrest
    | compact σ =>
      obtain ⟨p', hp', h'⟩ := h.compact (hmain σ List.mem_cons_self)
      have hstep : p.run depth minLoc (.compact σ :: events) = p'.run depth minLoc events := by
        show (p.compact σ >>= fun p => fold (Process.step depth minLoc) p events) = _
        rw [hp', mk_ok_bind]
        rfl
      rw [hstep]
      exact ih h' hrest

/-- What is in step with a process that keeps the main object keeps it, too. -/
theorem Moved.keepsMain (h : Moved mainObject τ p q) : KeepsMain p where
  global := by rw [h.globals, h.keeps.global, h.left, h.right]
  room := h.room
  mains := by rw [h.mains, h.len, h.keeps.mains]
  slots j loc isMain hloc hisMain := by
    rw [h.mains] at hisMain
    have hj : j < q.wrapper.len := by
      rw [← h.keeps.mains]
      exact (List.getElem?_eq_some_iff.1 hisMain).1
    have hlt : j < q.wrapper.frames.length := hj.trans_le h.keeps.room
    have hget : q.wrapper.frames[j]? = some q.wrapper.frames[j] := List.getElem?_eq_getElem hlt
    rw [h.wrapper, compacted_getElem? h.keeps.room hj hget] at hloc
    obtain rfl := Option.some.inj hloc
    rw [← h.keeps.slots j _ isMain hget hisMain, h.left, h.right]
    refine and_congr_right' ?_
    show τ q.wrapper.frames[j].selfOrSelfClass = mainObject ↔ _
    conv_lhs => rw [← h.main]
    exact τ.apply_inj

end

/-- **The main object is recognised as long as it is not moved.** In every run after
`Init_backtracie_native_extension` in which no compaction moves the main object, the frames whose
self it is, and no others, are captured with it and named with its qualifier, and every answer is
the one of the run without the compactions. -/
theorem main_recognised_if_unmoved (vm : VM)
    (mainObject backtracieModule locationClass : VALUE) (count depth : ℕ)
    (minLoc : MinimalLocation) (events : List Event)
    (hmain : ∀ σ, .compact σ ∈ events → σ mainObject = mainObject) :
    Matches (fun p _ => p.RecognisesMain)
      ((Process.start vm mainObject backtracieModule locationClass count).run depth minLoc events)
      ((Process.start vm mainObject backtracieModule locationClass count).run depth minLoc
        (withoutCompactions .refl events)) := by
  have hstart := keepsMain_start vm mainObject backtracieModule locationClass count
  refine (run_moved (moved_refl hstart) hmain).mono fun p q h => ?_
  obtain ⟨τ, h⟩ := h
  exact h.keepsMain.recognises

/-- A process whose only thread runs a method on the main object. -/
def bootProcess : Process := Process.start (bootVM (bootThread false [rubyFrame 48])) 48 72 80 2

/-- The iseq of the method is moved. -/
def iseqMove : Relocation := .swap 56 560 (by decide) (by decide)

/-- The main object is moved. -/
def mainMove : Relocation := .swap 48 480 (by decide) (by decide)

/-- The compaction of the iseq between the capture and the query. -/
theorem main_recognised_if_unmoved_iseqMove :
    (bootProcess.run 1 MinimalLocation.zeroed
      [.capture 96 0, .compact iseqMove, .query .name 0]).trace =
      [.captured true,
        .text ⟨[.append (lit "Object$<main>#"), .appendValue (some (lit "m"))], .ok ()⟩] := by
  have hmatches := main_recognised_if_unmoved (bootVM (bootThread false [rubyFrame 48])) 48 72 80 2
    1 MinimalLocation.zeroed [.capture 96 0, .compact iseqMove, .query .name 0] fun σ hσ => by
      simp only [List.mem_cons, List.not_mem_nil, or_false, false_or, reduceCtorEq,
        Event.compact.injEq] at hσ
      rw [hσ]
      rfl
  exact hmatches.trace_eq.trans rfl

/-- **The main object is forgotten when it is moved**, by a compaction that leaves the pinned
objects where they are: the frame captured afterwards is named like that of any other object. -/
theorem main_forgotten_after_move :
    (∀ v ∈ bootProcess.globals.pinned, mainMove v = v) ∧
    (bootProcess.run 1 MinimalLocation.zeroed
      [.compact mainMove, .capture 96 0, .query .name 0]).trace =
      [.captured true, .text ⟨[.appendValue (some (lit "Object")), .append (lit "#"),
        .appendValue (some (lit "m"))], .ok ()⟩] ∧
    ¬Matches (fun p _ => p.RecognisesMain)
      (bootProcess.run 1 MinimalLocation.zeroed [.compact mainMove, .capture 96 0, .query .name 0])
      (bootProcess.run 1 MinimalLocation.zeroed
        (withoutCompactions .refl [.compact mainMove, .capture 96 0, .query .name 0])) := by
  refine ⟨fun v hv => ?_, rfl, fun hmatches => ?_⟩
  · change v ∈ [72, 80] at hv
    simp only [List.mem_cons, List.not_mem_nil, or_false] at hv
    rcases hv with rfl | rfl
    · rfl
    · rfl
  · have hright : (bootProcess.run 1 MinimalLocation.zeroed
        (withoutCompactions .refl [.compact mainMove, .capture 96 0, .query .name 0])).trace =
        [.captured true,
          .text ⟨[.append (lit "Object$<main>#"), .appendValue (some (lit "m"))], .ok ()⟩] := rfl
    have htrace := hmatches.trace_eq.trans hright
    have htexts : ([.appendValue (some (lit "Object")), .append (lit "#"),
        .appendValue (some (lit "m"))] : List Piece) =
          [.append (lit "Object$<main>#"), .appendValue (some (lit "m"))] :=
      congrArg Traced.trace (Answer.text.inj (List.cons.inj (List.cons.inj htrace).2).1)
    exact absurd (congrArg List.length htexts) (by decide)

end Backtracie
