import Backtracie.Queries
import Backtracie.Wrapper
import Mathlib.Logic.Equiv.Basic

/-!
# Moving the objects of the VM

A compaction of the heap moves objects to other addresses. A `Relocation` says where each address
goes, and `VM.relocate` is the VM after the move, with its own references updated. The functions
of the extension never compute with addresses, they only look things up and compare. So all they
see of a move is that each accessor yields what it did before, moved.

* `VM.relocate_trans`, `VM.relocate_symm`: moves compose and can be taken back;
* `relocate_rbType` and the lemmas after it: the accessors after a move.
-/

namespace Backtracie

open CMem Traced

/-- Where objects are moved to. Immediates are not objects; of these, the code tests for two. -/
structure Relocation extends Equiv VALUE VALUE where
  map_qfalse : toFun qfalse = qfalse
  map_qnil : toFun qnil = qnil

namespace Relocation

instance : CoeFun Relocation fun _ => VALUE → VALUE := ⟨fun σ => σ.toFun⟩

@[ext] theorem ext {σ τ : Relocation} (h : ∀ v, σ v = τ v) : σ = τ := by
  rcases σ with ⟨σ, _, _⟩
  rcases τ with ⟨τ, _, _⟩
  obtain rfl : σ = τ := Equiv.ext h
  rfl

/-- Nothing is moved. -/
def refl : Relocation := { Equiv.refl VALUE with map_qfalse := rfl, map_qnil := rfl }

/-- One move after the other. -/
def trans (σ τ : Relocation) : Relocation where
  toEquiv := σ.toEquiv.trans τ.toEquiv
  map_qfalse := by
    show τ (σ qfalse) = qfalse
    rw [σ.map_qfalse, τ.map_qfalse]
  map_qnil := by
    show τ (σ qnil) = qnil
    rw [σ.map_qnil, τ.map_qnil]

/-- The move back. -/
def symm (σ : Relocation) : Relocation where
  toEquiv := σ.toEquiv.symm
  map_qfalse := by
    show σ.toEquiv.symm qfalse = qfalse
    rw [Equiv.symm_apply_eq]
    exact σ.map_qfalse.symm
  map_qnil := by
    show σ.toEquiv.symm qnil = qnil
    rw [Equiv.symm_apply_eq]
    exact σ.map_qnil.symm

/-- Two objects change places. -/
def swap (v w : VALUE) (hv : rtest v) (hw : rtest w) : Relocation where
  toEquiv := Equiv.swap v w
  map_qfalse := Equiv.swap_apply_of_ne_of_ne hv.1.symm hw.1.symm
  map_qnil := Equiv.swap_apply_of_ne_of_ne hv.2.symm hw.2.symm

variable (σ τ : Relocation) (v w : VALUE)

@[simp] theorem symm_apply_apply : σ.symm (σ v) = v := σ.toEquiv.symm_apply_apply v

@[simp] theorem apply_symm_apply : σ (σ.symm v) = v := σ.toEquiv.apply_symm_apply v

theorem symm_trans_self : σ.symm.trans σ = refl := by
  ext v
  exact σ.apply_symm_apply v

variable {v w}

@[simp] theorem apply_inj : σ v = σ w ↔ v = w := σ.toEquiv.injective.eq_iff

@[simp] theorem apply_eq_zero : σ v = 0 ↔ v = 0 := by
  have h := σ.apply_inj (v := v) (w := qfalse)
  rwa [σ.map_qfalse] at h

@[simp] theorem rtest_apply : rtest (σ v) ↔ rtest v := by
  have h := σ.apply_inj (v := v) (w := qnil)
  rw [σ.map_qnil] at h
  unfold rtest
  rw [ne_eq, ne_eq, ne_eq, ne_eq, h]
  exact and_congr_left' (not_congr σ.apply_eq_zero)

end Relocation

/-! ## The VM after a move -/

section

variable (σ : Relocation)

/-- An iseq with its references updated. -/
def Iseq.relocate (iseq : Iseq) : Iseq :=
  { iseq with
    label := σ iseq.label, baseLabel := σ iseq.baseLabel, pathobj := σ iseq.pathobj }

/-- A method entry with its references updated. -/
def MethodEntry.relocate (cme : MethodEntry) : MethodEntry :=
  { cme with definedClass := σ cme.definedClass }

/-- A control frame with its references updated. -/
def ControlFrame.relocate (frame : ControlFrame) : ControlFrame :=
  { frame with
    iseq := σ frame.iseq, self := σ frame.self, vmFrameMethodEntry := σ frame.vmFrameMethodEntry }

/-- A stack with its references updated. -/
def ExecutionContext.relocate (ec : ExecutionContext) : ExecutionContext :=
  { ec with frameAt := fun p => (ec.frameAt p).relocate σ }

/-- A thread with its references updated. -/
def Thread.relocate (thread : Thread) : Thread := { thread with ec := thread.ec.relocate σ }

/-- The VM after a move: what was at `v` is at `σ v`, and all references are updated. -/
def VM.relocate (vm : VM) : VM where
  rbType v := vm.rbType (σ.symm v)
  rstring v := vm.rstring (σ.symm v)
  rarrayAref v i := σ (vm.rarrayAref (σ.symm v) i)
  rbClassOf v := σ (vm.rbClassOf (σ.symm v))
  rbasicKlass v := σ (vm.rbasicKlass (σ.symm v))
  flSingleton v := vm.flSingleton (σ.symm v)
  rmoduleIsRefinement v := vm.rmoduleIsRefinement (σ.symm v)
  rbClassSuperclass v := σ (vm.rbClassSuperclass (σ.symm v))
  rbClassReal v := σ (vm.rbClassReal (σ.symm v))
  rbModName v := σ (vm.rbModName (σ.symm v))
  attached v := σ (vm.attached (σ.symm v))
  refinedClass v := σ (vm.refinedClass (σ.symm v))
  definedAt v := σ (vm.definedAt (σ.symm v))
  rbId2str id := σ (vm.rbId2str id)
  iseqAt v := (vm.iseqAt (σ.symm v)).map (Iseq.relocate σ)
  methodEntryAt v := (vm.methodEntryAt (σ.symm v)).map (MethodEntry.relocate σ)
  rbIseqLineNo v pos := vm.rbIseqLineNo (σ.symm v) pos
  rbProfileFrame query v := σ (vm.rbProfileFrame query (σ.symm v))
  rbCModule := σ vm.rbCModule
  rbCClass := σ vm.rbCClass
  rbCBasicObject := σ vm.rbCBasicObject
  rbMRubyVMFrozenCore := σ vm.rbMRubyVMFrozenCore
  threadAt v := (vm.threadAt (σ.symm v)).relocate σ
  rbThreadCurrent := σ vm.rbThreadCurrent

/-- The VM and the global of the extension after a move, if the global were updated as well. -/
def Runtime.relocate (rt : Runtime) : Runtime :=
  { toVM := rt.toVM.relocate σ, mainObjectInstance := σ rt.mainObjectInstance }

end

section

variable (σ τ : Relocation) (vm : VM) (v : VALUE)

theorem VM.relocate_trans : (vm.relocate σ).relocate τ = vm.relocate (σ.trans τ) := by
  have hiseq : (fun v => (((vm.iseqAt (σ.symm (τ.symm v))).map (Iseq.relocate σ)).map
      (Iseq.relocate τ))) = fun v => (vm.iseqAt ((σ.trans τ).symm v)).map
        (Iseq.relocate (σ.trans τ)) := by
    funext v
    rw [Option.map_map]
    rfl
  have hmethod : (fun v => (((vm.methodEntryAt (σ.symm (τ.symm v))).map
      (MethodEntry.relocate σ)).map (MethodEntry.relocate τ))) = fun v =>
        (vm.methodEntryAt ((σ.trans τ).symm v)).map (MethodEntry.relocate (σ.trans τ)) := by
    funext v
    rw [Option.map_map]
    rfl
  unfold VM.relocate
  simp only [hiseq, hmethod]
  rfl

theorem VM.relocate_refl : vm.relocate Relocation.refl = vm := by
  have hiseq : (fun v => (vm.iseqAt (Relocation.refl.symm v)).map (Iseq.relocate .refl)) =
      vm.iseqAt := by
    funext v
    exact Option.map_id'
  have hmethod : (fun v => (vm.methodEntryAt (Relocation.refl.symm v)).map
      (MethodEntry.relocate .refl)) = vm.methodEntryAt := by
    funext v
    exact Option.map_id'
  unfold VM.relocate
  rw [hiseq, hmethod]
  rfl

/-- A move can be taken back. -/
theorem VM.relocate_symm : (vm.relocate σ.symm).relocate σ = vm := by
  rw [VM.relocate_trans, Relocation.symm_trans_self, VM.relocate_refl]

/-! ### What the accessors yield after a move -/

@[simp] theorem relocate_rbType : (vm.relocate σ).rbType (σ v) = vm.rbType v :=
  congrArg vm.rbType (σ.symm_apply_apply v)

@[simp] theorem relocate_rstring : (vm.relocate σ).rstring (σ v) = vm.rstring v :=
  congrArg vm.rstring (σ.symm_apply_apply v)

@[simp] theorem relocate_rarrayAref (i : ℕ) :
    (vm.relocate σ).rarrayAref (σ v) i = σ (vm.rarrayAref v i) :=
  congrArg (fun w => σ (vm.rarrayAref w i)) (σ.symm_apply_apply v)

@[simp] theorem relocate_rbClassOf : (vm.relocate σ).rbClassOf (σ v) = σ (vm.rbClassOf v) :=
  congrArg (fun w => σ (vm.rbClassOf w)) (σ.symm_apply_apply v)

@[simp] theorem relocate_rbasicKlass : (vm.relocate σ).rbasicKlass (σ v) = σ (vm.rbasicKlass v) :=
  congrArg (fun w => σ (vm.rbasicKlass w)) (σ.symm_apply_apply v)

@[simp] theorem relocate_flSingleton : (vm.relocate σ).flSingleton (σ v) = vm.flSingleton v :=
  congrArg vm.flSingleton (σ.symm_apply_apply v)

@[simp] theorem relocate_rmoduleIsRefinement :
    (vm.relocate σ).rmoduleIsRefinement (σ v) = vm.rmoduleIsRefinement v :=
  congrArg vm.rmoduleIsRefinement (σ.symm_apply_apply v)

@[simp] theorem relocate_rbClassSuperclass :
    (vm.relocate σ).rbClassSuperclass (σ v) = σ (vm.rbClassSuperclass v) :=
  congrArg (fun w => σ (vm.rbClassSuperclass w)) (σ.symm_apply_apply v)

@[simp] theorem relocate_rbClassReal : (vm.relocate σ).rbClassReal (σ v) = σ (vm.rbClassReal v) :=
  congrArg (fun w => σ (vm.rbClassReal w)) (σ.symm_apply_apply v)

@[simp] theorem relocate_rbModName : (vm.relocate σ).rbModName (σ v) = σ (vm.rbModName v) :=
  congrArg (fun w => σ (vm.rbModName w)) (σ.symm_apply_apply v)

@[simp] theorem relocate_attached : (vm.relocate σ).attached (σ v) = σ (vm.attached v) :=
  congrArg (fun w => σ (vm.attached w)) (σ.symm_apply_apply v)

@[simp] theorem relocate_refinedClass :
    (vm.relocate σ).refinedClass (σ v) = σ (vm.refinedClass v) :=
  congrArg (fun w => σ (vm.refinedClass w)) (σ.symm_apply_apply v)

@[simp] theorem relocate_definedAt : (vm.relocate σ).definedAt (σ v) = σ (vm.definedAt v) :=
  congrArg (fun w => σ (vm.definedAt w)) (σ.symm_apply_apply v)

@[simp] theorem relocate_rbId2str (id : ID) : (vm.relocate σ).rbId2str id = σ (vm.rbId2str id) :=
  rfl

@[simp] theorem relocate_rbIseqLineNo (pos : ℕ) :
    (vm.relocate σ).rbIseqLineNo (σ v) pos = vm.rbIseqLineNo v pos :=
  congrArg (fun w => vm.rbIseqLineNo w pos) (σ.symm_apply_apply v)

@[simp] theorem relocate_threadAt : (vm.relocate σ).threadAt (σ v) = (vm.threadAt v).relocate σ :=
  congrArg (fun w => (vm.threadAt w).relocate σ) (σ.symm_apply_apply v)

@[simp] theorem relocate_derefIseq :
    (vm.relocate σ).derefIseq (σ v) = (vm.derefIseq v).map (Iseq.relocate σ) := by
  have hiseq : (vm.relocate σ).iseqAt (σ v) = (vm.iseqAt v).map (Iseq.relocate σ) :=
    congrArg (fun w => (vm.iseqAt w).map (Iseq.relocate σ)) (σ.symm_apply_apply v)
  unfold VM.derefIseq
  rw [hiseq]
  cases vm.iseqAt v <;> rfl

@[simp] theorem relocate_derefMethodEntry :
    (vm.relocate σ).derefMethodEntry (σ v) =
      (vm.derefMethodEntry v).map (MethodEntry.relocate σ) := by
  have hcme : (vm.relocate σ).methodEntryAt (σ v) =
      (vm.methodEntryAt v).map (MethodEntry.relocate σ) :=
    congrArg (fun w => (vm.methodEntryAt w).map (MethodEntry.relocate σ)) (σ.symm_apply_apply v)
  unfold VM.derefMethodEntry
  rw [hcme]
  cases vm.methodEntryAt v <;> rfl

@[simp] theorem relocate_stringContent :
    (vm.relocate σ).stringContent (σ v) = vm.stringContent v := by
  unfold VM.stringContent
  rw [relocate_rbType, relocate_rstring]

@[simp] theorem relocate_classOrModuleOrIclass :
    (vm.relocate σ).classOrModuleOrIclass (σ v) ↔ vm.classOrModuleOrIclass v := by
  unfold VM.classOrModuleOrIclass
  rw [relocate_rbType]

end

end Backtracie
