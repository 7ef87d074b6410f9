import Backtracie.Frames

/-!
# The frame wrapper

`frame_wrapper_t` keeps an array of captured frames for the garbage collector, with the callbacks
that mark the objects the frames refer to and that update the references when objects are moved.
What the callbacks visit is logged (`Visit`).

* `frameWrapperMark_yields`: marking visits the three references of each slot below the length;
* `frameWrapperCompact_yields`: compaction replaces the same references.
-/

namespace Backtracie

open CMem Traced

/-- `frame_wrapper_t`, with an array of no slots for the NULL pointer. The field `len` is a C `int`,
and here a natural number without a bound. -/
structure FrameWrapper where
  frames : List RawLocation
  capa : ℕ
  len : ℕ
  deriving DecidableEq

/-- The structure as `TypedData_Make_Struct` makes it, of zero bytes. -/
def frameWrapperMade : FrameWrapper := { frames := [], capa := 0, len := 0 }

/-- `frame_data->capa = count`. -/
def FrameWrapper.setCapa (wrapper : FrameWrapper) (count : ℕ) : FrameWrapper :=
  { wrapper with capa := count }

/-- `frame_data->len = len`. -/
def FrameWrapper.setLen (wrapper : FrameWrapper) (len : ℕ) : FrameWrapper :=
  { wrapper with len := len }

/-- `frame_data->frames = xcalloc(count, sizeof(raw_location))`. -/
def FrameWrapper.setFrames (wrapper : FrameWrapper) (count : ℕ) : FrameWrapper :=
  { wrapper with frames := List.replicate count RawLocation.zeroed }

/-- `frames[i] = loc`. -/
def FrameWrapper.setSlot (wrapper : FrameWrapper) (i : ℕ) (loc : RawLocation) : FrameWrapper :=
  { wrapper with frames := wrapper.frames.set i loc }

/-- `backtracie_frame_wrapper_new`. -/
def frameWrapperNew (count : ℕ) : FrameWrapper :=
  ((frameWrapperMade.setCapa count).setLen 0).setFrames count

/-- `frames[i]`. -/
def frameAt (frames : List RawLocation) (i : ℕ) : Except Fault RawLocation :=
  match frames[i]? with
  | some loc => .ok loc
  | none => .error (.wild i 1 frames.length)

/-! ## Marking and compaction -/

/-- What a callback hands to the garbage collector: `rb_gc_mark` pins the object. -/
inductive Visit
  | mark (v : VALUE)
  | markMovable (v : VALUE)
  deriving DecidableEq

/-- A callback of the garbage collector. -/
abbrev GcCallback := Traced Visit Fault

/-- `rb_gc_mark`. -/
def rbGcMark (v : VALUE) : GcCallback Unit := emit (.mark v)

/-- `rb_gc_mark_movable`. -/
def rbGcMarkMovable (v : VALUE) : GcCallback Unit := emit (.markMovable v)

/-- `backtracie_frame_mark`. -/
def frameMark (loc : RawLocation) : GcCallback Unit := do
  rbGcMark loc.iseq
  rbGcMark loc.callableMethodEntry
  rbGcMark loc.selfOrSelfClass

/-- `backtracie_frame_mark_movable`. -/
def frameMarkMovable (loc : RawLocation) : GcCallback Unit := do
  rbGcMarkMovable loc.iseq
  rbGcMarkMovable loc.callableMethodEntry
  rbGcMarkMovable loc.selfOrSelfClass

section

variable (rbGcLocation : VALUE → VALUE)

/-- `backtracie_frame_compact`. -/
def frameCompact (loc : RawLocation) : RawLocation :=
  { loc with
    iseq := rbGcLocation loc.iseq
    callableMethodEntry := rbGcLocation loc.callableMethodEntry
    selfOrSelfClass := rbGcLocation loc.selfOrSelfClass }

/-- One round of the loop of `backtracie_frame_wrapper_mark`. -/
def markRound (wrapper : FrameWrapper) (_ : Unit) (i : ℕ) : GcCallback Unit := do
  let loc ← lift (frameAt wrapper.frames i)
  frameMarkMovable loc

/-- `backtracie_frame_wrapper_mark`. -/
def frameWrapperMark (wrapper : FrameWrapper) : GcCallback Unit :=
  fold (markRound wrapper) () (List.range wrapper.len)

/-- One round of the loop of `backtracie_frame_wrapper_compact`. -/
def compactRound (wrapper : FrameWrapper) (i : ℕ) : GcCallback FrameWrapper := do
  let loc ← lift (frameAt wrapper.frames i)
  pure (wrapper.setSlot i (frameCompact rbGcLocation loc))

/-- `backtracie_frame_wrapper_compact`. -/
def frameWrapperCompact (wrapper : FrameWrapper) : GcCallback FrameWrapper :=
  fold (compactRound rbGcLocation) wrapper (List.range wrapper.len)

end

/-! ## What the callbacks do -/

/-- The references that a raw location holds. -/
def RawLocation.references (loc : RawLocation) : List VALUE :=
  [loc.iseq, loc.callableMethodEntry, loc.selfOrSelfClass]

/-- The references that the slots below the length hold. -/
def FrameWrapper.references (wrapper : FrameWrapper) : List VALUE :=
  (wrapper.frames.take wrapper.len).flatMap RawLocation.references

/-- The wrapper with the references of the first `n` slots replaced. -/
def FrameWrapper.compacted (rbGcLocation : VALUE → VALUE) (wrapper : FrameWrapper) (n : ℕ) :
    FrameWrapper :=
  { wrapper with
    frames := (wrapper.frames.take n).map (frameCompact rbGcLocation) ++ wrapper.frames.drop n }

variable {frames : List RawLocation} {wrapper : FrameWrapper} {i n : ℕ} {loc : RawLocation}

theorem frameAt_of_getElem? (h : frames[i]? = some loc) : frameAt frames i = .ok loc := by
  rw [frameAt, h]

theorem getElem?_of_frameAt (h : frameAt frames i = .ok loc) : frames[i]? = some loc := by
  unfold frameAt at h
  split at h
  · next hget => exact hget.trans (congrArg some (Except.ok.inj h))
  · cases h

theorem frameAt_map (f : RawLocation → RawLocation) :
    frameAt (frames.map f) i = (frameAt frames i).map f := by
  unfold frameAt
  rw [List.getElem?_map, List.length_map]
  cases frames[i]? <;> rfl

theorem frameMark_yields (loc : RawLocation) :
    (frameMark loc).Yields (loc.references.map .mark) () := rfl

theorem frameMarkMovable_yields (loc : RawLocation) :
    (frameMarkMovable loc).Yields (loc.references.map .markMovable) () := rfl

/-- **Marking visits** the references of the slots below the length, and nothing else. -/
theorem frameWrapperMark_yields (h : wrapper.len ≤ wrapper.frames.length) :
    (frameWrapperMark wrapper).Yields (wrapper.references.map .markMovable) () := by
  unfold frameWrapperMark FrameWrapper.references
  generalize wrapper.len = n at h
  induction n with
  | zero => rfl
  | succ n ih =>
    have hround : (markRound wrapper () n).Yields (wrapper.frames[n].references.map .markMovable)
        () := by
      rw [markRound, frameAt_of_getElem? (List.getElem?_eq_getElem h), lift_ok, pure_bind]
      exact frameMarkMovable_yields _
    rw [List.range_succ, fold_concat, List.take_succ_eq_append_getElem h, List.flatMap_append,
      List.map_append, List.flatMap_singleton]
    exact (ih (by omega)).bind hround

/-! ## Compaction -/

section

variable {σ τ : VALUE → VALUE}

theorem length_compacted : (wrapper.compacted σ n).frames.length = wrapper.frames.length := by
  show ((wrapper.frames.take n).map _ ++ wrapper.frames.drop n).length = _
  rw [List.length_append, List.length_map, ← List.length_append, List.take_append_drop]

theorem length_map_take (h : n ≤ frames.length) :
    ((frames.take n).map (frameCompact σ)).length = n := by
  rw [List.length_map, List.length_take, Nat.min_eq_left h]

/-- The slots whose references were replaced. -/
theorem take_compacted (h : n ≤ wrapper.frames.length) :
    (wrapper.compacted σ n).frames.take n = (wrapper.frames.take n).map (frameCompact σ) :=
  List.take_left' (length_map_take h)

/-- The other slots. -/
theorem drop_compacted (h : n ≤ wrapper.frames.length) :
    (wrapper.compacted σ n).frames.drop n = wrapper.frames.drop n :=
  List.drop_left' (length_map_take h)

theorem compacted_getElem? (h : n ≤ wrapper.frames.length) (hi : i < n)
    (hloc : wrapper.frames[i]? = some loc) :
    (wrapper.compacted σ n).frames[i]? = some (frameCompact σ loc) := by
  rw [← List.getElem?_take_of_lt hi, take_compacted h, List.getElem?_map,
    List.getElem?_take_of_lt hi, hloc]
  rfl

/-- The slot behind them. -/
theorem compacted_getElem?_self (h : n ≤ wrapper.frames.length) :
    (wrapper.compacted σ n).frames[n]? = wrapper.frames[n]? := by
  have hdrop : ∀ l : List RawLocation, l[n]? = (l.drop n)[0]? := by
    intro l
    rw [List.getElem?_drop, Nat.add_zero]
  rw [hdrop, drop_compacted h, ← hdrop]

theorem compacted_id : wrapper.compacted (fun v => v) n = wrapper := by
  show ({ wrapper with frames := (wrapper.frames.take n).map (fun loc => loc) ++
    wrapper.frames.drop n } : FrameWrapper) = _
  rw [List.map_id', List.take_append_drop]

theorem compacted_compacted (h : n ≤ wrapper.frames.length) :
    (wrapper.compacted σ n).compacted τ n = wrapper.compacted (fun v => τ (σ v)) n := by
  show ({ wrapper with frames := ((wrapper.compacted σ n).frames.take n).map (frameCompact τ) ++
    (wrapper.compacted σ n).frames.drop n } : FrameWrapper) = _
  rw [take_compacted h, drop_compacted h, List.map_map]
  rfl

/-- A location may be stored first and its references replaced afterwards. -/
theorem compacted_setSlot (h : n < wrapper.frames.length) :
    (wrapper.compacted σ n).setSlot n (frameCompact σ loc) =
      (wrapper.setSlot n loc).compacted σ (n + 1) := by
  have hlen := length_map_take (σ := σ) h.le
  have hset : wrapper.frames.set n loc =
      (wrapper.frames.take n ++ [loc]) ++ wrapper.frames.drop (n + 1) := by
    rw [List.set_eq_take_append_cons_drop, if_pos h, List.append_assoc]
    rfl
  have hlen' : (wrapper.frames.take n ++ [loc]).length = n + 1 := by
    rw [List.length_append, List.length_take, Nat.min_eq_left h.le]
    rfl
  unfold FrameWrapper.setSlot FrameWrapper.compacted
  simp only
  rw [hset, List.take_left' hlen', List.drop_left' hlen', List.set_append_right _ _ hlen.le, hlen,
    Nat.sub_self, List.drop_eq_getElem_cons h, List.set_cons_zero, List.map_append,
    List.append_assoc]
  rfl

theorem setSlot_self (h : wrapper.frames[i]? = some loc) : wrapper.setSlot i loc = wrapper := by
  obtain ⟨hlt, rfl⟩ := List.getElem?_eq_some_iff.1 h
  unfold FrameWrapper.setSlot
  rw [List.set_getElem_self hlt]

/-- The loop of `backtracie_frame_wrapper_compact` after `n` rounds. -/
theorem compactRounds_yields (σ : VALUE → VALUE) (h : n ≤ wrapper.frames.length) :
    (fold (compactRound σ) wrapper (List.range n)).Yields [] (wrapper.compacted σ n) := by
  induction n with
  | zero => rfl
  | succ n ih =>
    -- slot `n` is still as it was
    have hget : wrapper.frames[n]? = some wrapper.frames[n] := List.getElem?_eq_getElem h
    have hround : (compactRound σ (wrapper.compacted σ n) n).Yields []
        (wrapper.compacted σ (n + 1)) := by
      have hn : n ≤ wrapper.frames.length := Nat.le_of_succ_le h
      rw [compactRound, frameAt_of_getElem? ((compacted_getElem?_self hn).trans hget), lift_ok,
        pure_bind, compacted_setSlot h, setSlot_self hget]
      rfl
    rw [List.range_succ, fold_concat]
    exact (ih (by omega)).bind hround

/-- **Compaction replaces** the references of the slots below the length, and nothing else. -/
theorem frameWrapperCompact_yields (σ : VALUE → VALUE) (h : wrapper.len ≤ wrapper.frames.length) :
    (frameWrapperCompact σ wrapper).Yields [] (wrapper.compacted σ wrapper.len) :=
  compactRounds_yields σ h

end

end Backtracie
