import Backtracie.Foundations.Delimited
import Backtracie.Stringify
import Backtracie.Concatenation

/-!
# Reading names back

The name of a frame says what the method belongs to, whether it was called on a class or module
itself, and what it is called. `QualifiedName` has these parts, `QualifiedName.text` is how they are
written, and `QualifiedName.parse` reads them back. As long as the names of modules have none of the
characters that the format puts between the parts, which is so for paths of constants, nothing is
lost, whatever the method is called: from the buffer of `backtracie_frame_name_cstr` the parts of
the name are read back that belong to the frame (`names_read_back`).
-/

namespace Backtracie

open CMem Traced Delimited

/-! ## The format -/

/-- What a class or module is called: after one that has a name, perhaps as a class or module
without a name, and as a singleton class of that, any number of times over. -/
structure ModuleName where
  base : Bytes
  anonymous : Bool
  singletons : ℕ
  deriving DecidableEq

/-- What a method belongs to. -/
inductive Owner
  | main
  | module (name : ModuleName)
  /-- A refinement of a class, in the module `definedAt`. -/
  | refinement (refined definedAt : ModuleName)
  deriving DecidableEq

/-- The name of a frame that runs a method. -/
structure QualifiedName where
  owner : Owner
  /-- The method was called on a class or module. -/
  onModule : Bool
  method : Bytes
  deriving DecidableEq

/-- The byte `$`. -/
def dollar : UInt8 := 36

/-- The byte `@`. -/
def atSign : UInt8 := 64

/-- The byte `#` or `.`. -/
def isSeparator (b : UInt8) : Bool := b = 35 || b = 46

namespace ModuleName

/-- What is said behind the name, with a `$` before each. -/
def suffixes (name : ModuleName) : List Bytes :=
  (if name.anonymous then [lit "anonymous"] else []) ++
    List.replicate name.singletons (lit "singleton")

/-- The name as it is printed. -/
def text (name : ModuleName) : Bytes := name.base ++ name.suffixes.flatMap (dollar :: ·)

/-- Read the suffixes. -/
def ofSuffixes (base : Bytes) (suffixes : List Bytes) : Option ModuleName :=
  let anonymous := decide (suffixes.head? = some (lit "anonymous"))
  let singletons := if anonymous then suffixes.tail else suffixes
  if singletons.all (· = lit "singleton") then
    some { base := base, anonymous := anonymous, singletons := singletons.length }
  else none

/-- Read the name back. -/
def parse (text : Bytes) : Option ModuleName :=
  match text.splitOn dollar with
  | base :: suffixes => ofSuffixes base suffixes
  | [] => none

end ModuleName

namespace Owner

/-- The owner as it is printed, without the separator. -/
def text : Owner → Bytes
  | .main => lit "Object$<main>"
  | .module name => name.text
  | .refinement refined definedAt => refined.text ++ (lit "$refinement@" ++ definedAt.text)

/-- Read the owner back: only that of a refinement has an `@`. -/
def parse (text : Bytes) : Option Owner :=
  if text = lit "Object$<main>" then some .main
  else match splitFirst (· = atSign) text with
  | some (refined, _, definedAt) => do
    let refined ← stripSuffix (lit "$refinement") refined
    pure (.refinement (← ModuleName.parse refined) (← ModuleName.parse definedAt))
  | none => (ModuleName.parse text).map .module

end Owner

namespace QualifiedName

/-- What stands between the owner and the method. -/
def separator (onModule : Bool) : Bytes := if onModule then lit "." else lit "#"

/-- The name as it is printed. -/
def text (name : QualifiedName) : Bytes :=
  name.owner.text ++ separator name.onModule ++ name.method

/-- Read the name back: the owner ends at the first separator. -/
def parse (text : Bytes) : Option QualifiedName :=
  match splitFirst isSeparator text with
  | some (owner, sep, method) =>
    (Owner.parse owner).map fun owner =>
      { owner := owner, onModule := decide (sep = 46), method := method }
  | none => none

end QualifiedName

/-! ## Names that can be read back -/

/-- The bytes have none of the characters of the format. -/
def PlainName (name : Bytes) : Prop :=
  ∀ b ∈ name, isSeparator b = false ∧ b ≠ dollar ∧ b ≠ atSign

instance : DecidablePred PlainName := fun name =>
  name.decidableBAll fun b => isSeparator b = false ∧ b ≠ dollar ∧ b ≠ atSign

/-- The names of modules in it have none of these characters. -/
def Owner.Plain : Owner → Prop
  | .main => True
  | .module name => PlainName name.base
  | .refinement refined definedAt => PlainName refined.base ∧ PlainName definedAt.base

section

variable {name refined definedAt : ModuleName} {owner : Owner}

theorem suffixes_plain : ∀ s ∈ name.suffixes, PlainName s := by
  intro s hs
  rcases List.mem_append.1 hs with hs | hs
  · split at hs
    · rw [List.mem_singleton.1 hs]
      decide
    · cases hs
  · rw [List.eq_of_mem_replicate hs]
    decide

/-- The suffixes are read back. -/
theorem ofSuffixes_suffixes : ModuleName.ofSuffixes name.base name.suffixes = some name := by
  obtain ⟨base, anonymous, singletons⟩ := name
  unfold ModuleName.ofSuffixes ModuleName.suffixes
  cases anonymous with
  | true => simp
  | false =>
    have hhead : (List.replicate singletons (lit "singleton")).head? ≠ some (lit "anonymous") := by
      cases singletons with
      | zero => exact fun h => by cases h
      | succ n => exact fun h => absurd (Option.some.inj h) (by decide)
    simp [hhead]

theorem splitOn_text (h : PlainName name.base) :
    name.text.splitOn dollar = name.base :: name.suffixes :=
  splitOn_append_flatMap (fun hb => (h dollar hb).2.1 rfl)
    fun s hs hb => (suffixes_plain s hs dollar hb).2.1 rfl

/-- **The name of a module** is read back. -/
theorem ModuleName.parse_text (h : PlainName name.base) :
    ModuleName.parse name.text = some name := by
  unfold ModuleName.parse
  rw [splitOn_text h]
  exact ofSuffixes_suffixes

/-- A byte of the name is a plain one, or a `$`. -/
theorem mem_text (h : PlainName name.base) {b : UInt8} (hb : b ∈ name.text) :
    isSeparator b = false ∧ b ≠ atSign := by
  rcases List.mem_append.1 hb with hb | hb
  · exact ⟨(h b hb).1, (h b hb).2.2⟩
  · obtain ⟨s, hs, hb⟩ := List.mem_flatMap.1 hb
    rcases List.mem_cons.1 hb with rfl | hb
    · decide
    · exact ⟨(suffixes_plain s hs b hb).1, (suffixes_plain s hs b hb).2.2⟩

theorem text_ne_main (h : PlainName name.base) : name.text ≠ lit "Object$<main>" := by
  intro htext
  have hsplit := splitOn_text h
  rw [htext] at hsplit
  have hmain : (lit "Object$<main>").splitOn dollar = [lit "Object", lit "<main>"] :=
    @splitOn_append_flatMap _ dollar (lit "Object") [lit "<main>"] _ (by decide) (by decide)
  rw [hmain] at hsplit
  have hsuffix : lit "<main>" ∈ name.suffixes := by
    rw [← (List.cons.inj hsplit).2]
    exact List.mem_singleton_self _
  rcases List.mem_append.1 hsuffix with hs | hs
  · split at hs
    · exact absurd (List.mem_singleton.1 hs) (by decide)
    · cases hs
  · exact absurd (List.eq_of_mem_replicate hs) (by decide)

/-- A byte of the owner is not a separator. -/
theorem Owner.text_separator (h : owner.Plain) : ∀ b ∈ owner.text, isSeparator b = false := by
  intro b hb
  cases owner with
  | main =>
    have hmain : (lit "Object$<main>").any isSeparator = false := by decide
    exact Bool.eq_false_of_not_eq_true (List.any_eq_false.1 hmain b hb)
  | module name => exact (mem_text h hb).1
  | refinement refined definedAt =>
    obtain ⟨hrefined, hdefinedAt⟩ := h
    have hbetween : (lit "$refinement@").any isSeparator = false := by decide
    rcases List.mem_append.1 hb with hb | hb
    · exact (mem_text hrefined hb).1
    · rcases List.mem_append.1 hb with hb | hb
      · exact Bool.eq_false_of_not_eq_true (List.any_eq_false.1 hbetween b hb)
      · exact (mem_text hdefinedAt hb).1

theorem refinement_text : (Owner.refinement refined definedAt).text =
    (refined.text ++ lit "$refinement") ++ atSign :: definedAt.text := by
  simp [Owner.text, lit, atSign]

theorem refinement_ne_main : (Owner.refinement refined definedAt).text ≠ lit "Object$<main>" := by
  have hmain : atSign ∉ lit "Object$<main>" := by decide
  intro htext
  rw [← htext, refinement_text] at hmain
  exact hmain (List.mem_append_right _ List.mem_cons_self)

/-- Before the `@` of a refinement there is no other. -/
theorem refinement_before (h : PlainName refined.base) :
    ∀ b ∈ refined.text ++ lit "$refinement", decide (b = atSign) = false := by
  have hsuffix : atSign ∉ lit "$refinement" := by decide
  intro b hb
  rcases List.mem_append.1 hb with hb | hb
  · exact decide_eq_false (mem_text h hb).2
  · exact decide_eq_false (ne_of_mem_of_not_mem hb hsuffix)

/-- **The owner** is read back. -/
theorem Owner.parse_text (h : owner.Plain) : Owner.parse owner.text = some owner := by
  cases owner with
  | main => exact if_pos rfl
  | module name =>
    have hnone : splitFirst (fun b => decide (b = atSign)) name.text = none :=
      splitFirst_eq_none fun b hb => decide_eq_false (mem_text h hb).2
    unfold Owner.parse Owner.text
    rw [if_neg (text_ne_main h), hnone]
    exact congrArg (Option.map Owner.module) (ModuleName.parse_text h)
  | refinement refined definedAt =>
    obtain ⟨hrefined, hdefinedAt⟩ := h
    unfold Owner.parse
    rw [if_neg refinement_ne_main, refinement_text,
      splitFirst_append_cons (refinement_before hrefined) (decide_eq_true rfl)]
    simp only [stripSuffix_append, Option.bind_eq_bind, Option.bind_some,
      ModuleName.parse_text hrefined, ModuleName.parse_text hdefinedAt]
    rfl

/-- **A qualified name** is read back, whatever the method is called. -/
theorem QualifiedName.parse_text {name : QualifiedName} (h : name.owner.Plain) :
    QualifiedName.parse name.text = some name := by
  obtain ⟨owner, onModule, method⟩ := name
  unfold QualifiedName.parse QualifiedName.text
  rw [List.append_assoc]
  cases onModule with
  | true =>
    have hsplit := @splitFirst_append_cons _ isSeparator 46 _ method (Owner.text_separator h) rfl
    rw [show QualifiedName.separator true ++ method = 46 :: method from rfl, hsplit]
    simp only [Owner.parse_text h]
    rfl
  | false =>
    have hsplit := @splitFirst_append_cons _ isSeparator 35 _ method (Owner.text_separator h) rfl
    rw [show QualifiedName.separator false ++ method = 35 :: method from rfl, hsplit]
    simp only [Owner.parse_text h]
    rfl

end

/-! ## The names of frames -/

/-- `mod_to_s` writes this name for the class, module or included module: that of a class or module
that has one, with suffixes. -/
def CalledAs (vm : VM) (klass : VALUE) (name : ModuleName) : Prop :=
  Prints vm klass name.text ∧ ∃ named, vm.classOrModuleOrIclass named ∧
    rtest (vm.rbModName named) ∧ name.base = nameOf vm named

/-- What the method of a frame belongs to, and whether it was called on a class or module: special
objects first, then the receiver, then where the method is defined, then the class of the
receiver. -/
inductive OwnedBy (rt : Runtime) (frame : ControlFrame) : Owner → Bool → Prop
  | main (hself : frame.self = rt.mainObjectInstance) : OwnedBy rt frame .main false
  | frozenCore (hmain : frame.self ≠ rt.mainObjectInstance)
    (hself : frame.self = rt.rbMRubyVMFrozenCore) :
    OwnedBy rt frame (.module { base := lit "RubyVM::FrozenCore", anonymous := false,
                                singletons := 0 }) false
  | receiver (hspecial : ¬objectHasSpecialBtHandling rt frame.self)
    (hself : rt.classOrModuleOrIclass frame.self) {name : ModuleName}
    (hname : CalledAs rt.toVM frame.self name) : OwnedBy rt frame (.module name) true
  | refinement (hself : ¬keepsSelf rt frame.self) {cme : MethodEntry}
    (hcme : frameMethodEntry rt.toVM frame = some cme)
    (hrefinement : isRefinement rt.toVM (rt.rbClassOf cme.definedClass))
    {refined definedAt : ModuleName}
    (hrefined : CalledAs rt.toVM (rt.refinedClass (rt.rbClassOf cme.definedClass)) refined)
    (hdefinedAt : CalledAs rt.toVM (rt.definedAt (rt.rbClassOf cme.definedClass)) definedAt) :
    OwnedBy rt frame (.refinement refined definedAt) false
  | definedClass (hself : ¬keepsSelf rt frame.self) {cme : MethodEntry}
    (hcme : frameMethodEntry rt.toVM frame = some cme)
    (hrefinement : ¬isRefinement rt.toVM (rt.rbClassOf cme.definedClass)) {name : ModuleName}
    (hname : CalledAs rt.toVM cme.definedClass name) : OwnedBy rt frame (.module name) false
  | selfClass (hself : ¬keepsSelf rt frame.self) (hcme : frameMethodEntry rt.toVM frame = none)
    {name : ModuleName} (hname : CalledAs rt.toVM (rt.rbClassOf frame.self) name) :
    OwnedBy rt frame (.module name) false

/-- What is written of the method itself. -/
def methodText (rt : Runtime) (frame : ControlFrame) : Bytes :=
  textOf (referenceMethodName rt frame.self (frameMethodEntry rt.toVM frame)
    (frameIseq rt.toVM frame)).trace

section

variable {rt : Runtime} {vm : VM} {frame : ControlFrame} {klass : VALUE} {name : ModuleName}
  {owner : Owner} {onModule : Bool}

theorem text_eq_suffixes (base : Bytes) (anonymous : Bool) (n : ℕ) :
    (ModuleName.mk base anonymous n).text =
      base ++ (if anonymous then lit "$anonymous" else []) ++ singletonSuffixes n := by
  have hsingleton : dollar :: lit "singleton" = lit "$singleton" := rfl
  have hanonymous : dollar :: lit "anonymous" = lit "$anonymous" := rfl
  have hreplicate : (List.replicate n (lit "singleton")).flatMap (dollar :: ·) =
      (List.replicate n (lit "$singleton")).flatten := by
    rw [List.flatMap_def, List.map_replicate, hsingleton]
  unfold ModuleName.text ModuleName.suffixes singletonSuffixes
  rw [List.flatMap_append, List.append_assoc, hreplicate]
  cases anonymous with
  | true => simp [hanonymous]
  | false => simp

/-- Every class, module and included module is called something. -/
theorem calledAs_exists (hvm : vm.ClassGraph) (hk : vm.classOrModuleOrIclass klass) :
    ∃ name, CalledAs vm klass name := by
  obtain ⟨named, text, hprints, hnamed, hname, anonymous, n, rfl⟩ := modToS_classText hvm hk
  refine ⟨{ base := nameOf vm named, anonymous := anonymous, singletons := n }, ?_, named, hnamed,
    hname, rfl⟩
  rw [text_eq_suffixes]
  exact hprints

theorem CalledAs.plain (h : CalledAs vm klass name)
    (hplain : ∀ v, rtest (vm.rbModName v) → PlainName (nameOf vm v)) : PlainName name.base := by
  obtain ⟨-, named, -, hname, hbase⟩ := h
  rw [hbase]
  exact hplain named hname

/-- Only a call on a class or module that is not special is written as one. -/
theorem OwnedBy.onModule_iff (h : OwnedBy rt frame owner onModule) :
    onModule = true ↔
      rt.classOrModuleOrIclass frame.self ∧ ¬objectHasSpecialBtHandling rt frame.self := by
  cases h with
  | main hself => exact iff_of_false Bool.false_ne_true fun h => h.2 (.inl hself)
  | frozenCore _ hself => exact iff_of_false Bool.false_ne_true fun h => h.2 (.inr hself)
  | receiver hspecial hself _ => exact iff_of_true rfl ⟨hself, hspecial⟩
  | refinement hself => exact iff_of_false Bool.false_ne_true fun h => hself (.inr h.1)
  | definedClass hself => exact iff_of_false Bool.false_ne_true fun h => hself (.inr h.1)
  | selfClass hself => exact iff_of_false Bool.false_ne_true fun h => hself (.inr h.1)

theorem OwnedBy.plain (h : OwnedBy rt frame owner onModule)
    (hplain : ∀ v, rtest (rt.rbModName v) → PlainName (nameOf rt.toVM v)) : owner.Plain := by
  cases h with
  | main => trivial
  | frozenCore =>
    show PlainName (lit "RubyVM::FrozenCore")
    decide
  | receiver _ _ hname => exact hname.plain hplain
  | refinement _ _ _ hrefined hdefinedAt => exact ⟨hrefined.plain hplain, hdefinedAt.plain hplain⟩
  | definedClass _ _ _ hname => exact hname.plain hplain
  | selfClass _ _ hname => exact hname.plain hplain

variable (hrt : rt.toVM.Lawful)

include hrt

/-- Where nothing is said of the self: what the method is defined in is written, or the class of the
self. -/
theorem definedIn_text (hself : ¬keepsSelf rt frame.self) :
    ∃ owner, OwnedBy rt frame owner false ∧
      WritesText (fun n => referenceQualifier rt n frame.self (frameMethodEntry rt.toVM frame))
        (owner.text ++ QualifiedName.separator false) () := by
  have hvm := hrt.classGraph
  obtain ⟨hspecial, hclass⟩ := not_or.1 hself
  obtain ⟨hmain, hfrozen⟩ := not_or.1 hspecial
  unfold referenceQualifier
  simp only [hmain, hfrozen, hclass, if_false]
  rcases hcme : frameMethodEntry rt.toVM frame with _ | cme
  · have htype : rt.rbType (rt.rbClassOf frame.self) = .tClass :=
      hrt.classOf_class frame.self fun h => hclass (.inr (.inl h))
    obtain ⟨name, hname⟩ := calledAs_exists hvm (.inl htype)
    exact ⟨.module name, .selfClass hself hcme hname,
      hname.1.andThen (append_text "#" (by decide))⟩
  · by_cases hrefinement : isRefinement rt.toVM (rt.rbClassOf cme.definedClass)
    · obtain ⟨hrefined, hdefinedAt⟩ := hvm.refinement _ hrefinement
      obtain ⟨refined, hrefined⟩ := calledAs_exists hvm (hrefined.imp_right .inr)
      obtain ⟨definedAt, hdefinedAt⟩ := calledAs_exists hvm (hdefinedAt.imp_right .inr)
      refine ⟨.refinement refined definedAt,
        .refinement hself hcme hrefinement hrefined hdefinedAt, ?_⟩
      simp only [hrefinement, if_true]
      exact (WritesText.andThen hrefined.1 ((append_text "$refinement@" (by decide)).andThen
        hdefinedAt.1)).andThen (append_text "#" (by decide))
    · obtain ⟨name, hname⟩ := calledAs_exists hvm (frameMethodEntry_lawful hrt hcme).definedClass
      refine ⟨.module name, .definedClass hself hcme hrefinement hname, ?_⟩
      simp only [hrefinement, if_false]
      exact hname.1.andThen (append_text "#" (by decide))

/-- **The owner of a method is written** before the separator. -/
theorem referenceQualifier_text (frame : ControlFrame) :
    ∃ owner onModule, OwnedBy rt frame owner onModule ∧
      WritesText (fun n => referenceQualifier rt n frame.self (frameMethodEntry rt.toVM frame))
        (owner.text ++ QualifiedName.separator onModule) () := by
  by_cases hself : keepsSelf rt frame.self
  · unfold referenceQualifier
    by_cases hmain : frame.self = rt.mainObjectInstance
    · refine ⟨.main, false, .main hmain, ?_⟩
      simp only [hmain, if_true]
      exact append_text "Object$<main>#" (by decide)
    by_cases hfrozen : frame.self = rt.rbMRubyVMFrozenCore
    · refine ⟨_, false, .frozenCore hmain hfrozen, ?_⟩
      simp only [if_neg hmain, if_pos hfrozen]
      exact append_text "RubyVM::FrozenCore#" (by decide)
    have hspecial : ¬objectHasSpecialBtHandling rt frame.self := not_or.2 ⟨hmain, hfrozen⟩
    have hclass : rt.classOrModuleOrIclass frame.self := hself.resolve_left hspecial
    obtain ⟨name, hname⟩ := calledAs_exists hrt.classGraph hclass
    refine ⟨.module name, true, .receiver hspecial hclass hname, ?_⟩
    simp only [hmain, hfrozen, hclass, if_true, if_false]
    exact hname.1.andThen (append_text "." (by decide))
  · obtain ⟨owner, howned, hwrites⟩ := definedIn_text hrt hself
    exact ⟨owner, false, howned, hwrites⟩

theorem methodText_writes (h : frame.Lawful rt.toVM)
    (hvalid : isValidFrame rt.toVM frame = .ok true) :
    WritesText (fun _ => referenceMethodName rt frame.self (frameMethodEntry rt.toVM frame)
      (frameIseq rt.toVM frame)) (methodText rt frame) () := by
  have hcme : ∀ c, frameMethodEntry rt.toVM frame = some c → c.Lawful rt.toVM :=
    fun c hc => frameMethodEntry_lawful hrt hc
  have hlabel : frameMethodEntry rt.toVM frame = none →
      rt.rbType (baseLabelOf (frameIseq rt.toVM frame)) = .tString := by
    intro hnone
    obtain ⟨iseq, hiseq, hsome⟩ := isValidFrame_iseq h hvalid hnone
    rw [hsome]
    exact (hrt.iseq _ _ hiseq).baseLabel
  obtain ⟨tr, hsettles, hproper⟩ := @referenceMethodName_writes rt frame.self _ _ hcme hlabel
  refine ⟨tr, hsettles, hproper, ?_⟩
  obtain ⟨N, hN⟩ := hsettles
  exact congrArg textOf (hN N le_rfl).trace.symm

/-- **The name of a captured frame**: the owner, the separator and the method. -/
theorem frameName_text (h : frame.Lawful rt.toVM)
    (hvalid : isValidFrame rt.toVM frame = .ok true) :
    ∃ owner onModule, OwnedBy rt frame owner onModule ∧
      WritesText (fun n => frameReferenceName rt n frame)
        (QualifiedName.mk owner onModule (methodText rt frame)).text () := by
  obtain ⟨owner, onModule, howned, hwrites⟩ := referenceQualifier_text hrt frame
  exact ⟨owner, onModule, howned, hwrites.andThen (methodText_writes hrt h hvalid)⟩

end

/-- **Names can be read back.** As long as the names of modules have none of the characters of the
format, from what `backtracie_frame_name_cstr` leaves in a buffer with room for it the parts of the
name are read back: what the method of the captured frame belongs to, with each suffix, whether it
was called on a class or module, and the method, which may have any characters. -/
theorem names_read_back (rt : Runtime) (hrt : rt.toVM.Lawful)
    (hplain : ∀ v, rtest (rt.rbModName v) → PlainName (nameOf rt.toVM v)) (frame : ControlFrame)
    (hframe : frame.Lawful rt.toVM) (hvalid : isValidFrame rt.toVM frame = .ok true) :
    ∃ name : QualifiedName, OwnedBy rt frame name.owner name.onModule ∧
      name.method = methodText rt frame ∧
      ∃ N, ∀ depth, N ≤ depth → ∀ junk before (buf : Bytes), name.text.length < buf.length →
        ∃ buf', (frameNameCstr junk rt depth before (locationOfFrame rt frame) buf).result =
            .ok (name.text.length, buf') ∧
          QualifiedName.parse (buf'.take name.text.length) = some name := by
  obtain ⟨owner, onModule, howned, tr, ⟨N, hN⟩, hproper, htext⟩ :=
    frameName_text hrt hframe hvalid
  refine ⟨QualifiedName.mk owner onModule (methodText rt frame), howned, rfl, N,
    fun depth hdepth junk before buf hbuf => ?_⟩
  have hname : (frameReferenceName rt depth frame).Yields tr () := hN depth hdepth
  rw [← frameName_eq hframe.toProper before] at hname
  have hleaves := writePieces_leavesText junk hproper (htext ▸ hbuf)
  rw [htext] at hleaves
  obtain ⟨buf', hres, htake⟩ := hleaves
  refine ⟨buf', ?_, ?_⟩
  · rw [frameNameCstr, cstrQuery_of_ok junk hname.result, hname.trace]
    exact hres
  · have hread := congrArg (List.take (QualifiedName.mk owner onModule
      (methodText rt frame)).text.length) htake
    rw [List.take_take, Nat.min_eq_left (Nat.le_succ _), List.take_left] at hread
    rw [hread]
    exact QualifiedName.parse_text (howned.plain hplain)

theorem bootVM_plain (thread : Thread) (v : VALUE)
    (h : rtest ((bootRuntime thread).rbModName v)) :
    PlainName (nameOf (bootRuntime thread).toVM v) := by
  by_cases hclass : v = 16 ∨ v = 24 ∨ v = 32 ∨ v = 40
  · rcases hclass with rfl | rfl | rfl | rfl
    · show PlainName (lit "BasicObject")
      decide
    · show PlainName (lit "Object")
      decide
    · show PlainName (lit "Module")
      decide
    · show PlainName (lit "Class")
      decide
  · have hnil : (bootRuntime thread).rbModName v = qnil := if_neg hclass
    rw [hnil] at h
    exact absurd h (by decide)

/-- The method `m`, called on an object that is not a class or module. -/
theorem names_read_back_rubyFrame :
    ∃ (name : QualifiedName) (depth : ℕ) (buf' : Bytes),
      name.onModule = false ∧ name.method = lit "m" ∧
      (frameNameCstr (fun _ => 0) (bootRuntime (bootThread false [rubyFrame 80])) depth
        MinimalLocation.zeroed
        (locationOfFrame (bootRuntime (bootThread false [rubyFrame 80])) (rubyFrame 80))
        (List.replicate (name.text.length + 1) 0)).result = .ok (name.text.length, buf') ∧
      QualifiedName.parse (buf'.take name.text.length) = some name := by
  obtain ⟨name, howned, hmethod, N, hN⟩ :=
    names_read_back (bootRuntime (bootThread false [rubyFrame 80])) (bootVM_lawful _)
      (bootVM_plain _) (rubyFrame 80) (rubyFrame_lawful _ 80) rfl
  obtain ⟨buf', hres, hparse⟩ := hN N le_rfl (fun _ => 0) MinimalLocation.zeroed
    (List.replicate (name.text.length + 1) 0) (by rw [List.length_replicate]; omega)
  refine ⟨name, N, buf', ?_, hmethod.trans (by decide), hres, hparse⟩
  refine Bool.eq_false_iff.2 fun htrue => ?_
  have hself := (howned.onModule_iff.1 htrue).1
  revert hself
  decide

end Backtracie
