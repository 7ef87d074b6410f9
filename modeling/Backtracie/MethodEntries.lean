import Backtracie.ReferenceName
import Backtracie.Foundations.FirstAlong

/-!
# The method entry of a frame on old versions of Ruby

Before Ruby 2.6 the function of MRI that finds the method entry of a control frame is hidden, and
`backtracie_frames.c` has a copy of it. Each frame has an environment; that of a block points at the
environment the block was made in, up to that of a method, which is local. The copy goes along
these pointers until it finds a method entry.

* `methodEntry_found_iff`: the loop ends exactly when the chain of environments has one with a
  method entry, or a local one; it returns the method entry of the first such;
* `nested_block_named`: so a block is named after the method it is in, however deep in other blocks.
-/

namespace Backtracie

open CMem Traced

/-- `imemo_type(obj)`, as far as it is told apart. -/
inductive ImemoType
  | ment
  | cref
  | svar
  | other
  deriving DecidableEq, Repr

/-- What is read of environments and of the objects they keep. Environments are addresses. -/
structure Environments where
  imemoType : VALUE → ImemoType
  /-- `((struct vm_svar *)obj)->cref_or_me`. -/
  crefOrMe : VALUE → VALUE
  /-- `VM_ENV_LOCAL_P(ep)`. -/
  vmEnvLocalP : ℕ → Bool
  /-- `VM_ENV_PREV_EP(ep)`. -/
  vmEnvPrevEp : ℕ → ℕ
  /-- `ep[VM_ENV_DATA_INDEX_ME_CREF]`. -/
  meCref : ℕ → VALUE

/-- A `rb_control_frame_t`, with its environment in place of its method entry. -/
structure EpControlFrame where
  pc : ℕ
  iseq : VALUE
  self : VALUE
  rubyframeP : Bool
  ep : ℕ

section

variable (envs : Environments)

/-- `copied_check_method_entry`, with NULL as `0`. -/
def copiedCheckMethodEntry (obj : VALUE) (canBeSvar : Bool) : VALUE :=
  if obj = qfalse then 0
  else match envs.imemoType obj with
  | .ment => obj
  | .cref => 0
  | .svar =>
    if canBeSvar then copiedCheckMethodEntry (envs.crefOrMe obj) false
    else 0
  | .other => 0
termination_by canBeSvar.toNat

/-- The loop of `copied_vm_frame_method_entry` from the environment `ep` on. -/
def copiedVmFrameMethodEntryFrom : ℕ → ℕ → Except Fault VALUE
  | 0, _ => .error .hang
  | rounds + 1, ep =>
    if ¬envs.vmEnvLocalP ep then
      let me := copiedCheckMethodEntry envs (envs.meCref ep) false
      if me ≠ 0 then .ok me
      else copiedVmFrameMethodEntryFrom rounds (envs.vmEnvPrevEp ep)
    else .ok (copiedCheckMethodEntry envs (envs.meCref ep) true)

/-- `copied_vm_frame_method_entry`. -/
def copiedVmFrameMethodEntry (rounds : ℕ) (cfp : EpControlFrame) : Except Fault VALUE :=
  copiedVmFrameMethodEntryFrom envs rounds cfp.ep

/-- The control frame with its method entry, as `backtracie_vm_frame_method_entry` finds it. -/
def EpControlFrame.withMethodEntry (rounds : ℕ) (cfp : EpControlFrame) :
    Except Fault ControlFrame := do
  let cme ← copiedVmFrameMethodEntry envs rounds cfp
  pure { pc := cfp.pc, iseq := cfp.iseq, self := cfp.self, rubyframeP := cfp.rubyframeP
         vmFrameMethodEntry := cme }

/-! ## What an environment keeps -/

/-- The object is a method entry. -/
def IsMethodEntry (obj : VALUE) : Prop := obj ≠ qfalse ∧ envs.imemoType obj = .ment

/-- The environment keeps the method entry `me`; only a local one may keep it behind an `svar`. -/
def KeepsMethodEntry (ep : ℕ) (me : VALUE) : Prop :=
  IsMethodEntry envs me ∧
    (me = envs.meCref ep ∨ envs.vmEnvLocalP ep = true ∧ envs.meCref ep ≠ qfalse ∧
      envs.imemoType (envs.meCref ep) = .svar ∧ me = envs.crefOrMe (envs.meCref ep))

/-- A search comes to an end in the environment: it is local, or keeps a method entry. -/
def EndsSearch (ep : ℕ) : Prop :=
  envs.vmEnvLocalP ep = true ∨ ∃ me, KeepsMethodEntry envs ep me

/-- What is found where a search comes to an end: the method entry that is kept, or NULL. -/
def FindsMethodEntry (ep : ℕ) (me : VALUE) : Prop :=
  KeepsMethodEntry envs ep me ∨ me = 0 ∧ ∀ me', ¬KeepsMethodEntry envs ep me'

variable {envs} {ep last : ℕ} {obj me : VALUE}

/-- Without looking behind an `svar`, a method entry is returned and nothing else. -/
theorem checkMethodEntry_false_iff :
    copiedCheckMethodEntry envs obj false = me ∧ me ≠ 0 ↔ IsMethodEntry envs me ∧ me = obj := by
  unfold copiedCheckMethodEntry IsMethodEntry
  by_cases h0 : obj = qfalse
  · rw [if_pos h0]
    constructor
    · rintro ⟨rfl, hne⟩
      exact absurd rfl hne
    · rintro ⟨⟨hne, -⟩, rfl⟩
      exact absurd h0 hne
  · rw [if_neg h0]
    cases htype : envs.imemoType obj with
    | ment =>
      constructor
      · rintro ⟨rfl, hne⟩
        exact ⟨⟨hne, htype⟩, rfl⟩
      · rintro ⟨⟨hne, -⟩, rfl⟩
        exact ⟨rfl, hne⟩
    | cref | svar | other =>
      constructor
      · rintro ⟨rfl, hne⟩
        exact absurd rfl hne
      · rintro ⟨⟨-, hment⟩, rfl⟩
        rw [htype] at hment
        cases hment

/-- In a local environment one looks behind an `svar`, once. -/
theorem checkMethodEntry_svar (h0 : obj ≠ qfalse) (htype : envs.imemoType obj = .svar) :
    copiedCheckMethodEntry envs obj true =
      copiedCheckMethodEntry envs (envs.crefOrMe obj) false := by
  rw [copiedCheckMethodEntry, if_neg h0, htype]
  rfl

/-- Anything else is treated as in an environment that is not local. -/
theorem checkMethodEntry_same (hsvar : ¬(obj ≠ qfalse ∧ envs.imemoType obj = .svar)) :
    copiedCheckMethodEntry envs obj true = copiedCheckMethodEntry envs obj false := by
  rw [copiedCheckMethodEntry.eq_def envs obj true, copiedCheckMethodEntry.eq_def envs obj false]
  by_cases h0 : obj = qfalse
  · rw [if_pos h0, if_pos h0]
  · rw [if_neg h0, if_neg h0]
    cases htype : envs.imemoType obj with
    | svar => exact absurd ⟨h0, htype⟩ hsvar
    | ment | cref | other => rfl

theorem checkMethodEntry_true_iff :
    copiedCheckMethodEntry envs obj true = me ∧ me ≠ 0 ↔
      IsMethodEntry envs me ∧ (me = obj ∨ obj ≠ qfalse ∧ envs.imemoType obj = .svar ∧
        me = envs.crefOrMe obj) := by
  by_cases hsvar : obj ≠ qfalse ∧ envs.imemoType obj = .svar
  · obtain ⟨h0, htype⟩ := hsvar
    rw [checkMethodEntry_svar h0 htype, checkMethodEntry_false_iff]
    refine and_congr_right fun hme => ⟨fun h => .inr ⟨h0, htype, h⟩, ?_⟩
    rintro (rfl | ⟨-, -, h⟩)
    · have hment := hme.2
      rw [htype] at hment
      cases hment
    · exact h
  · rw [checkMethodEntry_same hsvar, checkMethodEntry_false_iff]
    refine and_congr_right fun _ => ⟨.inl, ?_⟩
    rintro (h | ⟨h0, htype, -⟩)
    · exact h
    · exact absurd ⟨h0, htype⟩ hsvar

/-- What the loop looks up in an environment is the method entry it keeps. -/
theorem checkMethodEntry_iff :
    copiedCheckMethodEntry envs (envs.meCref ep) (envs.vmEnvLocalP ep) = me ∧ me ≠ 0 ↔
      KeepsMethodEntry envs ep me := by
  unfold KeepsMethodEntry
  cases hlocal : envs.vmEnvLocalP ep with
  | false =>
    rw [checkMethodEntry_false_iff]
    simp only [Bool.false_eq_true, false_and, or_false]
  | true =>
    rw [checkMethodEntry_true_iff]
    simp only [true_and]

theorem findsMethodEntry_iff :
    FindsMethodEntry envs ep me ↔
      copiedCheckMethodEntry envs (envs.meCref ep) (envs.vmEnvLocalP ep) = me := by
  unfold FindsMethodEntry
  simp only [← checkMethodEntry_iff]
  constructor
  · rintro (⟨h, -⟩ | ⟨rfl, hnone⟩)
    · exact h
    · by_contra hne
      exact hnone _ ⟨rfl, hne⟩
  · rintro rfl
    by_cases h0 : copiedCheckMethodEntry envs (envs.meCref ep) (envs.vmEnvLocalP ep) = 0
    · refine .inr ⟨h0, ?_⟩
      rintro me' ⟨rfl, hne⟩
      exact hne h0
    · exact .inl ⟨rfl, h0⟩

/-! ## The search -/

theorem searchFrom_of_ends (h : EndsSearch envs ep) (rounds : ℕ) :
    copiedVmFrameMethodEntryFrom envs (rounds + 1) ep =
      .ok (copiedCheckMethodEntry envs (envs.meCref ep) (envs.vmEnvLocalP ep)) := by
  unfold copiedVmFrameMethodEntryFrom
  cases hlocal : envs.vmEnvLocalP ep with
  | true => rw [if_neg (by simp)]
  | false =>
    have hme : copiedCheckMethodEntry envs (envs.meCref ep) false ≠ 0 := by
      rcases h with h | ⟨me, h⟩
      · rw [hlocal] at h
        cases h
      · rw [← checkMethodEntry_iff, hlocal] at h
        rw [h.1]
        exact h.2
    simp only [Bool.false_eq_true, not_false_eq_true, if_true, hme, ne_eq]

theorem searchFrom_of_not_ends (h : ¬EndsSearch envs ep) (rounds : ℕ) :
    copiedVmFrameMethodEntryFrom envs (rounds + 1) ep =
      copiedVmFrameMethodEntryFrom envs rounds (envs.vmEnvPrevEp ep) := by
  unfold EndsSearch at h
  rw [not_or, Bool.not_eq_true] at h
  obtain ⟨hlocal, hnone⟩ := h
  have hme : copiedCheckMethodEntry envs (envs.meCref ep) false = 0 := by
    by_contra hne
    refine hnone ⟨_, checkMethodEntry_iff.1 ⟨rfl, ?_⟩⟩
    rwa [hlocal]
  rw [copiedVmFrameMethodEntryFrom, hlocal, if_pos (by simp), if_neg (not_not.2 hme)]

/-- The search from an environment ends where the first one is that ends it. -/
theorem searchFrom_of_first (h : FirstAlong envs.vmEnvPrevEp (EndsSearch envs) ep last)
    (hme : FindsMethodEntry envs last me) :
    ∃ N, ∀ rounds, N ≤ rounds → copiedVmFrameMethodEntryFrom envs rounds ep = .ok me := by
  induction h with
  | here hends =>
    refine ⟨1, fun rounds hrounds => ?_⟩
    obtain ⟨n, rfl⟩ := Nat.exists_eq_add_of_le' hrounds
    rw [searchFrom_of_ends hends, findsMethodEntry_iff.1 hme]
  | step hends _ ih =>
    obtain ⟨N, hN⟩ := ih hme
    refine ⟨N + 1, fun rounds hrounds => ?_⟩
    obtain ⟨n, rfl⟩ := Nat.exists_eq_add_of_le' (Nat.le_of_add_left_le hrounds)
    rw [searchFrom_of_not_ends hends]
    exact hN n (by omega)

/-- A search that ends has met an environment that ends it. -/
theorem first_of_searchFrom {rounds : ℕ}
    (h : copiedVmFrameMethodEntryFrom envs rounds ep = .ok me) :
    ∃ last, FirstAlong envs.vmEnvPrevEp (EndsSearch envs) ep last ∧
      FindsMethodEntry envs last me := by
  induction rounds generalizing ep with
  | zero => cases h
  | succ rounds ih =>
    by_cases hends : EndsSearch envs ep
    · rw [searchFrom_of_ends hends] at h
      exact ⟨ep, .here hends, findsMethodEntry_iff.2 (Except.ok.inj h)⟩
    · rw [searchFrom_of_not_ends hends] at h
      obtain ⟨last, hlast, hme⟩ := ih h
      exact ⟨last, .step hends hlast, hme⟩

end

/-- **The search for a method entry** comes to an end exactly when the environments of the frame,
from the innermost on, have one that keeps a method entry, or a local one. It yields the method
entry that the first such environment keeps, or NULL. -/
theorem methodEntry_found_iff (envs : Environments) (cfp : EpControlFrame) (me : VALUE) :
    (∃ N, ∀ rounds, N ≤ rounds → copiedVmFrameMethodEntry envs rounds cfp = .ok me) ↔
      ∃ last, FirstAlong envs.vmEnvPrevEp (EndsSearch envs) cfp.ep last ∧
        FindsMethodEntry envs last me := by
  constructor
  · rintro ⟨N, hN⟩
    exact first_of_searchFrom (hN N le_rfl)
  · rintro ⟨last, hlast, hme⟩
    exact searchFrom_of_first hlast hme

/-! ## Blocks -/

/-- The environment of a block, which keeps no method entry of its own. -/
def IsBlockEnvironment (envs : Environments) (ep : ℕ) : Prop :=
  envs.vmEnvLocalP ep = false ∧ ∀ me, ¬KeepsMethodEntry envs ep me

/-- The environment `home`, or that of a block in it, or that of a block in that block, … -/
inductive BlocksIn (envs : Environments) (home : ℕ) : ℕ → Prop
  | home : BlocksIn envs home home
  | block {ep : ℕ} (hblock : IsBlockEnvironment envs ep)
    (h : BlocksIn envs home (envs.vmEnvPrevEp ep)) : BlocksIn envs home ep

section

variable {envs : Environments} {ep home : ℕ} {me : VALUE}

/-- All blocks in one another end the search in the environment they are in. -/
theorem BlocksIn.first (h : BlocksIn envs home ep) (hme : KeepsMethodEntry envs home me) :
    FirstAlong envs.vmEnvPrevEp (EndsSearch envs) ep home := by
  induction h with
  | home => exact .here (.inr ⟨me, hme⟩)
  | block hblock _ ih =>
    refine .step ?_ ih
    rintro (hlocal | ⟨me', hme'⟩)
    · rw [hblock.1] at hlocal
      cases hlocal
    · exact hblock.2 me' hme'

end

/-- **A block is named after the method it is in.** For a frame that runs a block nested to any
depth in blocks of an environment that keeps a method entry, that method entry is found. If the
frame is a Ruby frame that has started, it is valid wherever it is on a stack, and the location
captured of it has that method entry. The name of the location is the name of a call of that method
on the frame's self, and `{block}`. -/
theorem nested_block_named (rt : Runtime) (envs : Environments) (cfp : EpControlFrame) (home : ℕ)
    (me : VALUE) (cme : MethodEntry) (iseq : Iseq) (hblocks : BlocksIn envs home cfp.ep)
    (hkeeps : KeepsMethodEntry envs home me) (hme : rtest me)
    (hcme : rt.methodEntryAt me = some cme) (htest : rtest cfp.iseq)
    (hiseq : rt.iseqAt cfp.iseq = some iseq) (hblock : isBlockOrEval (some iseq)) :
    ∃ N, ∀ rounds, N ≤ rounds → ∃ frame, cfp.withMethodEntry envs rounds = .ok frame ∧
      frame.vmFrameMethodEntry = me ∧
      (locationOfFrame rt frame).callableMethodEntry = me ∧
      (cfp.rubyframeP = true → cfp.pc ≠ 0 → ∀ (ec : ExecutionContext) (i : ℕ) (loc : RawLocation),
        ec.cfp + i < ec.endControlFrame - 1 → ec.frameAt (ec.cfp + i) = frame →
          captureFrameForExecutionContext rt ec i loc = .ok (true, locationOfFrame rt frame)) ∧
      ∀ depth before,
        frameName rt depth before (locationOfFrame rt frame) = (do
          referenceQualifier rt depth cfp.self (some cme)
          appendValue rt.toVM (rt.rbId2str cme.calledId)
          append "{block}") := by
  obtain ⟨N, hN⟩ := searchFrom_of_first (hblocks.first hkeeps) (.inl hkeeps)
  refine ⟨N, fun rounds hrounds => ?_⟩
  set frame : ControlFrame :=
    { pc := cfp.pc, iseq := cfp.iseq, self := cfp.self, rubyframeP := cfp.rubyframeP
      vmFrameMethodEntry := me }
  refine ⟨frame, ?_, rfl, rfl, fun hruby hpc ec i loc hlt hframe => ?_, fun depth before => ?_⟩
  · rw [EpControlFrame.withMethodEntry, copiedVmFrameMethodEntry, hN rounds hrounds]
    rfl
  · have hvalid : isValidFrame rt.toVM frame = .ok true := isValidFrame_of_ruby hruby hpc
    rw [capture_of_lt hlt, hframe, hvalid]
    rfl
  · have hproper : frame.Proper rt.toVM :=
      ⟨.inr ⟨htest, Option.isSome_iff_exists.2 ⟨iseq, hiseq⟩⟩,
        .inr ⟨hme, Option.isSome_iff_exists.2 ⟨cme, hcme⟩⟩⟩
    have hmethod : frameMethodEntry rt.toVM frame = some cme := (if_neg hme.1).trans hcme
    have hcode : frameIseq rt.toVM frame = some iseq := (if_neg htest.1).trans hiseq
    rw [frameName_eq hproper, frameReferenceName, hmethod, hcode, referenceName,
      referenceMethodName, appendIf, if_pos hblock]

/-- Two blocks in the method `m` of `bootVM`: the environments 3, 2 and 1 are those of the inner
block, of the outer block and of the method. -/
def blockEnvironments : Environments where
  imemoType v := if v = 64 then .ment else .svar
  crefOrMe _ := 64
  vmEnvLocalP ep := decide (ep = 1)
  vmEnvPrevEp ep := ep - 1
  meCref ep := if ep = 1 then 300 else qfalse

theorem blockEnvironments_block {ep : ℕ} (h : ep ≠ 1) :
    IsBlockEnvironment blockEnvironments ep := by
  refine ⟨decide_eq_false h, ?_⟩
  rintro me ⟨⟨hne, -⟩, hme | ⟨hlocal, -⟩⟩
  · apply hne
    rw [hme]
    exact if_neg h
  · exact h (of_decide_eq_true hlocal)

/-- The VM in which every iseq is one of a block. -/
def blockRuntime : Runtime :=
  { bootRuntime (bootThread false []) with
    iseqAt := fun _ =>
      some { type := .block, label := 156, baseLabel := 156, pathobj := 157, iseqEncoded := 10 } }

/-- The inner block of the two, at the top of a stack. -/
theorem nested_block_named_inner :
    ∃ rounds frame, (EpControlFrame.withMethodEntry blockEnvironments rounds
        { pc := 11, iseq := 156, self := 48, rubyframeP := true, ep := 3 }) = .ok frame ∧
      frame.vmFrameMethodEntry = 64 ∧
      captureFrameForExecutionContext blockRuntime (stackOf [frame]) 0 .zeroed =
        .ok (true, locationOfFrame blockRuntime frame) ∧
      frameName blockRuntime 1 .zeroed (locationOfFrame blockRuntime frame) =
        ⟨[.append (lit "Object$<main>#"), .appendValue (some (lit "m")), .append (lit "{block}")],
          .ok ()⟩ := by
  have hblocks : BlocksIn blockEnvironments 1 3 :=
    .block (blockEnvironments_block (by decide))
      (.block (blockEnvironments_block (by decide)) .home)
  have hkeeps : KeepsMethodEntry blockEnvironments 1 64 :=
    ⟨⟨by decide, rfl⟩, .inr ⟨rfl, by decide, rfl, rfl⟩⟩
  obtain ⟨N, hN⟩ := nested_block_named blockRuntime blockEnvironments
    { pc := 11, iseq := 156, self := 48, rubyframeP := true, ep := 3 } 1 64 _ _
    hblocks hkeeps (by decide) rfl (by decide) rfl (by decide)
  obtain ⟨frame, hframe, hme, -, hcapture, hname⟩ := hN N le_rfl
  have hstack : captureFrameForExecutionContext blockRuntime (stackOf [frame]) 0 .zeroed =
      .ok (true, locationOfFrame blockRuntime frame) :=
    hcapture rfl (by decide) (stackOf [frame]) 0 .zeroed (show (1 : ℤ) + 0 < 1 + 2 - 1 by decide)
      rfl
  exact ⟨N, frame, hframe, hme, hstack, hname 1 .zeroed⟩

end Backtracie
