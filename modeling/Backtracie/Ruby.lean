import Backtracie.Foundations.Memory

/-!
# What the extension reads of the Ruby VM

The VM is not part of this repository. What the extension asks it for is collected in a
structure: `VM` has one field for each accessor of MRI that `backtracie.c` and
`backtracie_frames.c` use, under the name it has there. Objects are addresses (`VALUE`); the
structures of the VM that the extension reads through pointers are records of the fields it reads.

A pointer to an iseq or a method entry is read with `VM.derefIseq` and `VM.derefMethodEntry`,
which fault when no such structure is there, as for a NULL pointer or `Qnil`.
-/

namespace Backtracie

open CMem

/-- A reference to a Ruby object, or an immediate. -/
abbrev VALUE := ℕ

/-- The number of an interned name. -/
abbrev ID := ℕ

/-- `Qfalse`, which is also what a NULL pointer becomes when it is cast to a `VALUE`. -/
def qfalse : VALUE := 0

/-- `Qnil`. -/
def qnil : VALUE := 8

/-- `RTEST(v)`: no bit is set apart from the one of `Qnil`. -/
def rtest (v : VALUE) : Prop := v ≠ qfalse ∧ v ≠ qnil

instance : DecidablePred rtest := fun v => inferInstanceAs (Decidable (v ≠ qfalse ∧ v ≠ qnil))

/-- The types of objects that the extension tells apart. -/
inductive RubyType
  | tClass
  | tModule
  | tIClass
  | tString
  | tArray
  | tOther
  deriving DecidableEq, Repr

/-- A Ruby string: its bytes, and the number of its encoding. -/
structure RString where
  bytes : Bytes
  encoding : ℕ
  deriving DecidableEq

/-- The number of the encoding `ASCII-8BIT`. -/
def encAscii8bit : ℕ := 0

/-- `rb_str_new2(s)`: a string of the bytes up to the first NUL. -/
def rbStrNew2 (s : Bytes) : RString := { bytes := cstr s, encoding := encAscii8bit }

/-- `enum iseq_type`. -/
inductive IseqType
  | top
  | method
  | block
  | klass
  | rescue
  | ensure
  | eval
  | main
  | plain
  deriving DecidableEq, Repr

/-- The value of the enumeration constant. -/
def IseqType.code : IseqType → ℕ
  | .top => 0
  | .method => 1
  | .block => 2
  | .klass => 3
  | .rescue => 4
  | .ensure => 5
  | .eval => 6
  | .main => 7
  | .plain => 8

/-- `rb_method_type_t`. -/
inductive MethodType
  | iseq
  | cfunc
  | attrset
  | ivar
  | bmethod
  | zsuper
  | alias
  | undef
  | notimplemented
  | optimized
  | missing
  | refined
  deriving DecidableEq, Repr

/-- What is read of `iseq->body`. The address `iseqEncoded` counts in units of `VALUE`. -/
structure Iseq where
  type : IseqType
  label : VALUE
  baseLabel : VALUE
  pathobj : VALUE
  iseqEncoded : ℕ
  deriving DecidableEq

/-- What is read of a `rb_callable_method_entry_t` and of its `def`. -/
structure MethodEntry where
  calledId : ID
  definedClass : VALUE
  defType : MethodType
  defOriginalId : ID
  deriving DecidableEq

/-- A `rb_control_frame_t`, with NULL pointers as `0`. -/
structure ControlFrame where
  pc : ℕ
  iseq : VALUE
  self : VALUE
  /-- `VM_FRAME_RUBYFRAME_P(cfp)`. -/
  rubyframeP : Bool
  /-- `rb_vm_frame_method_entry(cfp)`. -/
  vmFrameMethodEntry : VALUE
  deriving DecidableEq

/-- A `rb_execution_context_t`. Addresses of control frames count in units of control frames, and
`0` is NULL; `endControlFrame` is `RUBY_VM_END_CONTROL_FRAME(ec)`. -/
structure ExecutionContext where
  cfp : ℤ
  endControlFrame : ℤ
  frameAt : ℤ → ControlFrame

/-- `enum rb_thread_status`. -/
inductive ThreadStatus
  | runnable
  | stopped
  | stoppedForever
  | killed
  deriving DecidableEq, Repr

/-- What is read of a `rb_thread_t`. -/
structure Thread where
  toKill : Bool
  status : ThreadStatus
  ec : ExecutionContext

/-- The functions `rb_profile_frame_…` that `debug_frame` calls. -/
inductive ProfileQuery
  | path
  | absolutePath
  | label
  | baseLabel
  | fullLabel
  | firstLineno
  | classpath
  | singletonMethodP
  | methodName
  | qualifiedMethodName
  deriving DecidableEq, Repr

/-- The accessors of MRI that the extension uses. -/
structure VM where
  /-- `RB_TYPE_P(v, t)` is `rbType v = t`. -/
  rbType : VALUE → RubyType
  rstring : VALUE → RString
  rarrayAref : VALUE → ℕ → VALUE
  rbClassOf : VALUE → VALUE
  /-- `RBASIC(v)->klass`. -/
  rbasicKlass : VALUE → VALUE
  /-- `FL_TEST(v, FL_SINGLETON)`. -/
  flSingleton : VALUE → Bool
  /-- `FL_TEST(v, RMODULE_IS_REFINEMENT)`. -/
  rmoduleIsRefinement : VALUE → Bool
  rbClassSuperclass : VALUE → VALUE
  rbClassReal : VALUE → VALUE
  rbModName : VALUE → VALUE
  /-- `rb_ivar_get(v, id__attached__)`. -/
  attached : VALUE → VALUE
  /-- `rb_attr_get(v, id_refined_class)`. -/
  refinedClass : VALUE → VALUE
  /-- `rb_attr_get(v, id_defined_at)`. -/
  definedAt : VALUE → VALUE
  rbId2str : ID → VALUE
  /-- The iseq at an address, when there is one. -/
  iseqAt : VALUE → Option Iseq
  /-- The callable method entry at an address, when there is one. -/
  methodEntryAt : VALUE → Option MethodEntry
  /-- `rb_iseq_line_no(iseq, pos)`, an `int`. -/
  rbIseqLineNo : VALUE → ℕ → BitVec 32
  rbProfileFrame : ProfileQuery → VALUE → VALUE
  rbCModule : VALUE
  rbCClass : VALUE
  rbCBasicObject : VALUE
  rbMRubyVMFrozenCore : VALUE
  /-- `DATA_PTR(thread)`. -/
  threadAt : VALUE → Thread
  rbThreadCurrent : VALUE

/-- The VM, and the global of the extension that naming depends on, as
`Init_backtracie_native_extension` left it: `backtracie_main_object_instance`. -/
structure Runtime extends VM where
  mainObjectInstance : VALUE

namespace VM

variable (vm : VM)

/-- `*(rb_iseq_t *)v`. -/
def derefIseq (v : VALUE) : Except Fault Iseq :=
  match vm.iseqAt v with
  | some iseq => .ok iseq
  | none => .error .null

/-- `*(rb_callable_method_entry_t *)v`. -/
def derefMethodEntry (v : VALUE) : Except Fault MethodEntry :=
  match vm.methodEntryAt v with
  | some cme => .ok cme
  | none => .error .null

/-- The bytes of a string, `none` for an object of another type. -/
def stringContent (v : VALUE) : Option Bytes :=
  if vm.rbType v = .tString then some (vm.rstring v).bytes else none

/-- `class_or_module_or_iclass(obj)`. -/
def classOrModuleOrIclass (obj : VALUE) : Prop :=
  vm.rbType obj = .tClass ∨ vm.rbType obj = .tIClass ∨ vm.rbType obj = .tModule

instance : DecidablePred vm.classOrModuleOrIclass := fun obj =>
  inferInstanceAs (Decidable
    (vm.rbType obj = .tClass ∨ vm.rbType obj = .tIClass ∨ vm.rbType obj = .tModule))

theorem derefIseq_of_some {vm : VM} {v : VALUE} {iseq : Iseq} (h : vm.iseqAt v = some iseq) :
    vm.derefIseq v = .ok iseq := by
  rw [derefIseq, h]

theorem derefMethodEntry_of_some {vm : VM} {v : VALUE} {cme : MethodEntry}
    (h : vm.methodEntryAt v = some cme) : vm.derefMethodEntry v = .ok cme := by
  rw [derefMethodEntry, h]

end VM

end Backtracie
