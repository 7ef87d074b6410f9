import Backtracie.Frames
import Backtracie.Strbuilder

/-!
# The functions that write names, labels and paths

The functions of `backtracie_frames.c` that are handed a builder to write to. All they do with it
is append; what they append does not depend on the builder. So each of them is modelled by the
sequence of its appends (`Emit`), up to the point where it returns or faults, and put on a builder
by its caller.

The functions that name a class call each other. Here `modToS` is the recursive one, with a
counter that bounds the depth of the recursion and the rounds of the two loops.
-/

namespace Backtracie

open CMem Traced

/-- A computation that appends to the builder it was handed. -/
abbrev Emit := Traced Piece Fault

/-- `strbuilder_append(strout, cat)`. -/
def append (cat : String) : Emit Unit := emit (.append (lit cat))

/-- `if (p) strbuilder_append(strout, cat)`. -/
def appendIf (p : Prop) [Decidable p] (cat : String) : Emit Unit :=
  if p then append cat else pure ()

/-! ## Classes and modules -/

section

variable (vm : VM)

/-- `strbuilder_append_value(strout, val)`. -/
def appendValue (val : VALUE) : Emit Unit := emit (.appendValue (vm.stringContent val))

/-- The `while` loop of `mod_to_s_anon`. -/
def modToSAnonClass : ℕ → VALUE → Emit VALUE
  | 0, _ => fault .hang
  | rounds + 1, superclass =>
    if vm.rbType superclass = .tClass then pure superclass
    else modToSAnonClass rounds (vm.rbClassOf superclass)

/-- The `do` loop of `mod_to_s_anon`, which ends with a name. -/
def modToSAnonName : ℕ → VALUE → Emit VALUE
  | 0, _ => fault .hang
  | rounds + 1, superclass =>
    let superclass := vm.rbClassSuperclass superclass
    if ¬rtest superclass then fault (.abort "RTEST(superclass)")
    else
      let superclassName := vm.rbModName superclass
      if ¬rtest superclassName then modToSAnonName rounds superclass
      else pure superclassName

/-- `mod_to_s_anon`: the name of the first superclass that has one. -/
def modToSAnon (rounds : ℕ) (klass : VALUE) : Emit Unit := do
  let superclass ← modToSAnonClass vm rounds klass
  let superclassName ← modToSAnonName vm rounds superclass
  appendValue vm superclassName

/-- What `mod_to_s_singleton` prints instead of the singleton class. -/
def singletonOf (klass : VALUE) : VALUE :=
  let singletonOf := vm.rbClassReal klass
  if singletonOf = vm.rbCModule ∨ singletonOf = vm.rbCClass then vm.attached klass
  else singletonOf

/-- `mod_to_s_singleton`, with `mod_to_s` as an argument. -/
def modToSSingleton (modToS : VALUE → Emit Unit) (klass : VALUE) : Emit Unit :=
  modToS (singletonOf vm klass)

/-- `mod_to_s`. -/
def modToS : ℕ → VALUE → Emit Unit
  | 0, _ => fault .hang
  | depth + 1, klass =>
    if vm.flSingleton klass then do
      modToSSingleton vm (modToS depth) klass
      append "$singleton"
    else
      let klassName := vm.rbModName klass
      if ¬rtest klassName then
        if vm.rbType klass = .tIClass then
          let includedModule := vm.rbasicKlass klass
          modToS depth includedModule
        else do
          modToSAnon vm depth klass
          append "$anonymous"
      else appendValue vm klassName

/-- `mod_to_s_refinement`. -/
def modToSRefinement (depth : ℕ) (refinementModule : VALUE) : Emit Unit := do
  let refinedClass := vm.refinedClass refinementModule
  let definedAt := vm.definedAt refinementModule
  modToS vm depth refinedClass
  append "$refinement@"
  modToS vm depth definedAt

/-- The class of a defined class is a refinement. -/
def isRefinement (classOfDefinedClass : VALUE) : Prop :=
  rtest classOfDefinedClass ∧ vm.rmoduleIsRefinement classOfDefinedClass = true

instance : DecidablePred (isRefinement vm) := fun _ => inferInstanceAs (Decidable (_ ∧ _))

end

/-! ## Methods -/

section

variable (rt : Runtime) (depth : ℕ) (loc : MinimalLocation)

/-- The end of `minimal_location_method_qualifier`: the receiver is not a class or module. -/
def methodTargetQualifier : Emit Unit :=
  if loc.methodQualifierContents = methodQualifierContentsSelf then do
    modToS rt.toVM depth (rt.rbClassOf loc.methodQualifier)
    append "#"
  else if loc.methodQualifierContents = methodQualifierContentsSelfClass ∨
      loc.methodQualifierContents = methodQualifierContentsCmeClass then do
    modToS rt.toVM depth loc.methodQualifier
    append "#"
  else append "FIXME_SHOULD_NEVER_HAPPEN"

/-- `minimal_location_method_qualifier`. -/
def minimalLocationMethodQualifier : Emit Unit :=
  if loc.methodQualifierContents = methodQualifierContentsSelf ∧
      loc.methodQualifier = rt.mainObjectInstance then
    append "Object$<main>#"
  else if loc.methodQualifierContents = methodQualifierContentsSelf ∧
      loc.methodQualifier = rt.rbMRubyVMFrozenCore then
    append "RubyVM::FrozenCore#"
  else if loc.methodQualifierContents = methodQualifierContentsCmeClass ∧
      isRefinement rt.toVM (rt.rbClassOf loc.methodQualifier) then do
    modToSRefinement rt.toVM depth (rt.rbClassOf loc.methodQualifier)
    append "#"
  else if loc.methodQualifierContents = methodQualifierContentsSelf ∧
      rt.classOrModuleOrIclass loc.methodQualifier then do
    modToS rt.toVM depth loc.methodQualifier
    append "."
  else methodTargetQualifier rt depth loc

/-- The location is one of a block or an eval. -/
def MinimalLocation.inBlock : Prop :=
  loc.hasIseqType = true ∧ iseqTypeIsBlockOrEval loc.iseqType.toNat

instance : Decidable loc.inBlock := inferInstanceAs (Decidable (_ ∧ _))

/-- The self of the location is an object of the given type. -/
def selfHasType (type : RubyType) : Prop :=
  loc.methodQualifierContents = methodQualifierContentsSelf ∧ rt.rbType loc.methodQualifier = type

instance (type : RubyType) : Decidable (selfHasType rt loc type) :=
  inferInstanceAs (Decidable (_ ∧ _))

/-- `minimal_location_method_name`. -/
def minimalLocationMethodName : Emit Unit :=
  if loc.methodNameContents = methodNameContentsCmeId then do
    appendValue rt.toVM (rt.rbId2str loc.methodName)
    appendIf loc.inBlock "{block}"
  else do
    appendIf (selfHasType rt loc .tClass) "{class exec}"
    appendIf (selfHasType rt loc .tModule) "{module exec}"
    appendIf loc.inBlock "{block}"
    let didWriteAnything := selfHasType rt loc .tClass ∨ selfHasType rt loc .tModule ∨ loc.inBlock
    if ¬didWriteAnything then appendValue rt.toVM loc.methodName

/-- The two calls that write the name of a location. -/
def minimalLocationName : Emit Unit := do
  minimalLocationMethodQualifier rt depth loc
  minimalLocationMethodName rt loc

end

/-! ## Labels and paths -/

section

variable (vm : VM)

/-- `PATHOBJ_PATH`, and the other index of a path object. -/
def pathobjPath : ℕ := 0
def pathobjRealpath : ℕ := 1

/-- `path_str` of `iseq_path`. -/
def pathOfPathobj (pathobj : VALUE) (absolute : Bool) : Except Fault VALUE :=
  if vm.rbType pathobj = .tString then .ok pathobj
  else if vm.rbType pathobj = .tArray then
    .ok (vm.rarrayAref pathobj (if absolute then pathobjRealpath else pathobjPath))
  else .error (.abort "RB_TYPE_P(pathobj, T_ARRAY)")

/-- `iseq_path`: whether there was a path to append. -/
def iseqPath (iseq : VALUE) (absolute : Bool) : Emit Bool :=
  if iseq = 0 then pure false
  else do
    let body ← lift (vm.derefIseq iseq)
    let pathStr ← lift (pathOfPathobj vm body.pathobj absolute)
    if rtest pathStr then do
      appendValue vm pathStr
      pure true
    else pure false

/-- What the two functions for the file of a frame write. -/
def frameFilename (loc : RawLocation) (absolute : Bool) : Emit Bool := iseqPath vm loc.iseq absolute

/-- What the two functions for the label of a frame write. -/
def frameLabel (loc : RawLocation) (base : Bool) : Emit Bool :=
  if loc.isRubyFrame then
    if ¬rtest loc.iseq then pure false
    else do
      let iseq ← lift (vm.derefIseq loc.iseq)
      appendValue vm (if base then iseq.baseLabel else iseq.label)
      pure true
  else if ¬rtest loc.callableMethodEntry then pure false
  else do
    let cme ← lift (vm.derefMethodEntry loc.callableMethodEntry)
    appendValue vm (vm.rbId2str cme.defOriginalId)
    pure true

end

end Backtracie
