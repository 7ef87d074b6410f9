import Backtracie.Lawful

/-!
# The class of an object, and singleton classes

`VM.Metaclasses` adds to the graph of classes what MRI guarantees about singleton classes: which
class an object with a singleton class has, what the superclass of a singleton class is, and that
`rb_class_real` passes over singleton classes.

* `firstNamed_classReal`: passing over singleton classes does not change which class is the first
  with a name;
* `classReal_metaclass`: the singleton class of a class ends up at `Class`;
* `moduleVM`: a VM with anonymous classes and modules, and with singleton classes.
-/

namespace Backtracie

open CMem Traced

/-- What MRI guarantees about the class of an object and about singleton classes. -/
structure VM.Metaclasses (vm : VM) : Prop extends VM.ClassGraph vm where
  classOf_module : ∀ v, vm.rbType v = .tModule → vm.rbType (vm.rbClassOf v) = .tClass
  /-- A singleton class has no name. -/
  singleton_anonymous : ∀ v, vm.flSingleton v = true → ¬rtest (vm.rbModName v)
  /-- `rb_class_real` stops at the first class that is not a singleton class. -/
  classReal_self : ∀ v, vm.rbType v = .tClass → vm.flSingleton v = false → vm.rbClassReal v = v
  classReal_singleton : ∀ v, vm.flSingleton v = true →
    vm.rbClassReal v = vm.rbClassReal (vm.rbClassSuperclass v)
  /-- An object that is not a class has its singleton class as its class. -/
  attached_object : ∀ v, vm.flSingleton v = true → vm.rbType (vm.attached v) ≠ .tClass →
    vm.rbType (vm.attached v) ≠ .tIClass ∧ vm.rbClassOf (vm.attached v) = v
  /-- The superclass of the singleton class of `BasicObject` is `Class`. -/
  metaclass_basicObject : ∀ v, vm.flSingleton v = true → vm.attached v = vm.rbCBasicObject →
    vm.rbClassSuperclass v = vm.rbCClass
  /-- That of the singleton class of another class is the singleton class of its superclass. -/
  metaclass_superclass : ∀ v, vm.flSingleton v = true → vm.rbType (vm.attached v) = .tClass →
    vm.attached v ≠ vm.rbCBasicObject → vm.flSingleton (vm.rbClassSuperclass v) = true ∧
      vm.attached (vm.rbClassSuperclass v) = vm.rbClassSuperclass (vm.attached v)
  /-- The instances of `Module` itself are modules, those of `Class` are classes. -/
  instance_module : ∀ v, vm.rbType v ≠ .tIClass → vm.rbClassReal (vm.rbClassOf v) = vm.rbCModule →
    vm.rbType v = .tModule
  instance_class : ∀ v, vm.rbType v ≠ .tIClass → vm.rbClassReal (vm.rbClassOf v) = vm.rbCClass →
    vm.rbType v = .tClass
  cClass : vm.rbType vm.rbCClass = .tClass ∧ vm.flSingleton vm.rbCClass = false

section

variable {vm : VM} {c named s : VALUE} (hvm : vm.Metaclasses)

include hvm

theorem basicObject_not_singleton : vm.flSingleton vm.rbCBasicObject = false := by
  cases h : vm.flSingleton vm.rbCBasicObject with
  | false => rfl
  | true => exact absurd hvm.basicObject_named (hvm.singleton_anonymous _ h)

/-- `rb_class_real` finds the first class, going up, that is not a singleton class. -/
theorem classReal_first (hclass : vm.rbType c = .tClass) :
    FirstAlong vm.rbClassSuperclass (fun v => vm.flSingleton v = false) c (vm.rbClassReal c) := by
  have hdescends := hvm.descends c hclass
  induction hdescends with
  | basicObject =>
    have hfalse := basicObject_not_singleton hvm
    rw [hvm.classReal_self _ hclass hfalse]
    exact .here hfalse
  | @step klass _ hsuper _ ih =>
    cases hsingleton : vm.flSingleton klass with
    | false =>
      rw [hvm.classReal_self _ hclass hsingleton]
      exact .here hsingleton
    | true =>
      rw [hvm.classReal_singleton _ hsingleton]
      exact .step (by rw [hsingleton]; decide) (ih hsuper)

/-- Singleton classes have no names, so they do not matter for the first name. -/
theorem firstNamed_classReal (hclass : vm.rbType c = .tClass) :
    FirstNamed vm (vm.rbClassReal c) named ↔ FirstNamed vm c named := by
  refine (FirstAlong.skip (fun v hname => ?_) (classReal_first hvm hclass)).symm
  cases hsingleton : vm.flSingleton v with
  | false => rfl
  | true => exact absurd hname (hvm.singleton_anonymous v hsingleton)

/-- **The singleton class of a class** is, apart from singleton classes, below `Class`: by induction
on the superclasses of the class. -/
theorem classReal_metaclass (hs : vm.flSingleton s = true)
    (hclass : vm.rbType (vm.attached s) = .tClass) : vm.rbClassReal s = vm.rbCClass := by
  have hdescends := hvm.descends _ hclass
  generalize hx : vm.attached s = x at hclass hdescends
  induction hdescends generalizing s with
  | basicObject =>
    obtain ⟨htype, hfalse⟩ := hvm.cClass
    rw [hvm.classReal_singleton s hs, hvm.metaclass_basicObject s hs hx,
      hvm.classReal_self _ htype hfalse]
  | step hne hsuper _ ih =>
    obtain ⟨hs', hattached⟩ := hvm.metaclass_superclass s hs (hx ▸ hclass) (hx ▸ hne)
    rw [hvm.classReal_singleton s hs]
    exact ih hs' (by rw [hattached, hx]) hsuper

end

/-! ## A VM with anonymous modules and singleton classes -/

/-- A VM with a module without a name (104), a module `M` (120) of a class `MyModule` (112) below
`Module`, and a class without a name (136). `M` and the object `main` have singleton classes (128
and 144); so has the one of `main` (152), with those of `Object` and `BasicObject` above it. -/
def moduleVM : VM :=
  { bootVM (bootThread false []) with
    rbType := fun v =>
      if v = 16 ∨ v = 24 ∨ v = 32 ∨ v = 40 ∨ v = 112 ∨ v = 128 ∨ v = 136 ∨ v = 144 ∨ v = 152 ∨
        v = 160 ∨ v = 168 then .tClass
      else if v = 104 ∨ v = 120 then .tModule else if 300 ≤ v then .tString else .tOther
    rstring := fun v =>
      { bytes :=
          if v = 316 then lit "BasicObject" else if v = 324 then lit "Object"
          else if v = 332 then lit "Module" else if v = 340 then lit "Class"
          else if v = 412 then lit "MyModule" else lit "M"
        encoding := 1 }
    rbClassOf := fun v =>
      if v = 48 then 144 else if v = 104 then 32 else if v = 120 then 128
      else if v = 16 ∨ v = 24 ∨ v = 32 ∨ v = 40 ∨ v = 112 ∨ v = 128 ∨ v = 136 ∨ v = 144 ∨
        v = 152 ∨ v = 160 ∨ v = 168 then 40
      else 24
    flSingleton := fun v => decide (v = 128 ∨ v = 144 ∨ v = 152 ∨ v = 160 ∨ v = 168)
    rbClassSuperclass := fun v =>
      if v = 24 then 16 else if v = 32 then 24 else if v = 40 then 32 else if v = 112 then 32
      else if v = 128 then 112 else if v = 136 then 24 else if v = 144 then 24
      else if v = 152 then 160 else if v = 160 then 168 else if v = 168 then 40 else qnil
    rbClassReal := fun v =>
      if v = 128 then 112 else if v = 144 then 24 else if v = 152 ∨ v = 160 ∨ v = 168 then 40 else v
    rbModName := fun v =>
      if v = 16 ∨ v = 24 ∨ v = 32 ∨ v = 40 ∨ v = 112 ∨ v = 120 then 300 + v else qnil
    attached := fun v =>
      if v = 128 then 120 else if v = 144 then 48 else if v = 152 then 144
      else if v = 160 then 24 else 16 }

theorem moduleVM_isClass {v : VALUE} (h : moduleVM.rbType v = .tClass) :
    v = 16 ∨ v = 24 ∨ v = 32 ∨ v = 40 ∨ v = 112 ∨ v = 128 ∨ v = 136 ∨ v = 144 ∨ v = 152 ∨
      v = 160 ∨ v = 168 := by
  by_contra hv
  simp only [moduleVM, if_neg hv] at h
  split at h
  · cases h
  · split at h <;> cases h

theorem moduleVM_isModule {v : VALUE} (h : moduleVM.rbType v = .tModule) : v = 104 ∨ v = 120 := by
  by_contra hv
  simp only [moduleVM, if_neg hv] at h
  split at h
  · cases h
  · split at h <;> cases h

theorem moduleVM_not_iclass (v : VALUE) : moduleVM.rbType v ≠ .tIClass := by
  intro h
  simp only [moduleVM] at h
  split at h
  · cases h
  · split at h
    · cases h
    · split at h <;> cases h

theorem moduleVM_isSingleton {v : VALUE} (h : moduleVM.flSingleton v = true) :
    v = 128 ∨ v = 144 ∨ v = 152 ∨ v = 160 ∨ v = 168 :=
  of_decide_eq_true h

/-- No string is empty. -/
theorem moduleVM_rstring (v : VALUE) : (moduleVM.rstring v).bytes ≠ [] := by
  simp only [moduleVM]
  split_ifs <;> decide

/-- The class of an object without singleton classes: `Module` for 104, `Class` for a class. -/
theorem moduleVM_classReal (v : VALUE) :
    v = 104 ∧ moduleVM.rbClassReal (moduleVM.rbClassOf v) = 32 ∨
      moduleVM.rbType v = .tClass ∧ moduleVM.rbClassReal (moduleVM.rbClassOf v) = 40 ∨
      moduleVM.rbClassReal (moduleVM.rbClassOf v) = 112 ∨
      moduleVM.rbClassReal (moduleVM.rbClassOf v) = 24 := by
  by_cases h48 : v = 48
  · rw [h48]
    exact .inr (.inr (.inr rfl))
  by_cases h104 : v = 104
  · rw [h104]
    exact .inl ⟨rfl, rfl⟩
  by_cases h120 : v = 120
  · rw [h120]
    exact .inr (.inr (.inl rfl))
  have hclassOf : moduleVM.rbClassOf v = if v = 16 ∨ v = 24 ∨ v = 32 ∨ v = 40 ∨ v = 112 ∨ v = 128 ∨
      v = 136 ∨ v = 144 ∨ v = 152 ∨ v = 160 ∨ v = 168 then 40 else 24 :=
    (if_neg h48).trans ((if_neg h104).trans (if_neg h120))
  by_cases hclass : v = 16 ∨ v = 24 ∨ v = 32 ∨ v = 40 ∨ v = 112 ∨ v = 128 ∨ v = 136 ∨ v = 144 ∨
      v = 152 ∨ v = 160 ∨ v = 168
  · rw [hclassOf, if_pos hclass]
    exact .inr (.inl ⟨if_pos hclass, rfl⟩)
  · rw [hclassOf, if_neg hclass]
    exact .inr (.inr (.inr rfl))

theorem moduleVM_descends {v : VALUE} (h : moduleVM.rbType v = .tClass) : Descends moduleVM v := by
  have h16 : Descends moduleVM 16 := .basicObject
  have h24 : Descends moduleVM 24 := .step (show 24 ≠ 16 by decide) rfl h16
  have h32 : Descends moduleVM 32 := .step (show 32 ≠ 16 by decide) rfl h24
  have h40 : Descends moduleVM 40 := .step (show 40 ≠ 16 by decide) rfl h32
  have h112 : Descends moduleVM 112 := .step (show 112 ≠ 16 by decide) rfl h32
  have h168 : Descends moduleVM 168 := .step (show 168 ≠ 16 by decide) rfl h40
  have h160 : Descends moduleVM 160 := .step (show 160 ≠ 16 by decide) rfl h168
  rcases moduleVM_isClass h with rfl | rfl | rfl | rfl | rfl | rfl | rfl | rfl | rfl | rfl | rfl
  · exact h16
  · exact h24
  · exact h32
  · exact h40
  · exact h112
  · exact .step (show 128 ≠ 16 by decide) rfl h112
  · exact .step (show 136 ≠ 16 by decide) rfl h24
  · exact .step (show 144 ≠ 16 by decide) rfl h24
  · exact .step (show 152 ≠ 16 by decide) rfl h160
  · exact h160
  · exact h168

theorem moduleVM_attached_wf :
    WellFounded fun x v => moduleVM.flSingleton v = true ∧ x = moduleVM.attached v := by
  have hbase : ∀ v, moduleVM.flSingleton v = false →
      Acc (fun x v => moduleVM.flSingleton v = true ∧ x = moduleVM.attached v) v := by
    intro v hv
    refine ⟨v, fun x hx => ?_⟩
    rw [hv] at hx
    cases hx.1
  have hfirst : ∀ v, moduleVM.flSingleton (moduleVM.attached v) = false →
      Acc (fun x v => moduleVM.flSingleton v = true ∧ x = moduleVM.attached v) v := by
    intro v hv
    refine ⟨v, fun x hx => ?_⟩
    rw [hx.2]
    exact hbase _ hv
  refine ⟨fun v => ⟨v, fun x hx => ?_⟩⟩
  rw [hx.2]
  rcases moduleVM_isSingleton hx.1 with rfl | rfl | rfl | rfl | rfl
  · exact hbase _ rfl
  · exact hbase _ rfl
  · exact hfirst _ rfl
  · exact hbase _ rfl
  · exact hbase _ rfl

theorem moduleVM_metaclasses : moduleVM.Metaclasses where
  class_rtest v h := by
    rcases moduleVM_isClass h with
      rfl | rfl | rfl | rfl | rfl | rfl | rfl | rfl | rfl | rfl | rfl <;> decide
  descends v h := moduleVM_descends h
  basicObject_named := show rtest 316 by decide
  modName_string v h := by
    simp only [moduleVM] at h ⊢
    split at h
    · next hv => rcases hv with rfl | rfl | rfl | rfl | rfl | rfl <;> rfl
    · exact absurd rfl h.2
  module_class v h := by
    rcases moduleVM_isModule h with rfl | rfl
    · exact ⟨32, .step (by decide) (.here rfl), show 32 ≠ 16 by decide⟩
    · exact ⟨128, .step (by decide) (.here rfl), show 128 ≠ 16 by decide⟩
  iclass_klass v h := absurd h (moduleVM_not_iclass v)
  singleton_class v h := by
    rcases moduleVM_isSingleton h with rfl | rfl | rfl | rfl | rfl <;> rfl
  classReal_class v h := by
    rcases moduleVM_isSingleton h with rfl | rfl | rfl | rfl | rfl <;> exact ⟨rfl, rfl⟩
  attached_module v h hreal := by
    rcases moduleVM_isSingleton h with rfl | rfl | rfl | rfl | rfl
    · exact .inr rfl
    · exact absurd hreal (show ¬(24 = 32 ∨ 24 = 40) by decide)
    · exact .inl rfl
    · exact .inl rfl
    · exact .inl rfl
  attached_wf := moduleVM_attached_wf
  refinement v h := by cases h.2
  classOf_module v h := by
    rcases moduleVM_isModule h with rfl | rfl <;> rfl
  singleton_anonymous v h := by
    rcases moduleVM_isSingleton h with rfl | rfl | rfl | rfl | rfl <;>
      exact fun hname => hname.2 rfl
  classReal_self v h hsingleton := by
    rcases moduleVM_isClass h with
      rfl | rfl | rfl | rfl | rfl | rfl | rfl | rfl | rfl | rfl | rfl <;>
      first | rfl | cases hsingleton
  classReal_singleton v h := by
    rcases moduleVM_isSingleton h with rfl | rfl | rfl | rfl | rfl <;> rfl
  attached_object v h htype := by
    rcases moduleVM_isSingleton h with rfl | rfl | rfl | rfl | rfl
    · exact ⟨moduleVM_not_iclass _, rfl⟩
    · exact ⟨moduleVM_not_iclass _, rfl⟩
    · exact absurd rfl htype
    · exact absurd rfl htype
    · exact absurd rfl htype
  metaclass_basicObject v h hattached := by
    rcases moduleVM_isSingleton h with rfl | rfl | rfl | rfl | rfl
    · exact absurd hattached (show 120 ≠ 16 by decide)
    · exact absurd hattached (show 48 ≠ 16 by decide)
    · exact absurd hattached (show 144 ≠ 16 by decide)
    · exact absurd hattached (show 24 ≠ 16 by decide)
    · rfl
  metaclass_superclass v h hclass hne := by
    rcases moduleVM_isSingleton h with rfl | rfl | rfl | rfl | rfl
    · cases hclass
    · cases hclass
    · exact ⟨rfl, rfl⟩
    · exact ⟨rfl, rfl⟩
    · exact absurd rfl hne
  instance_module v _ h := by
    rcases moduleVM_classReal v with ⟨rfl, -⟩ | ⟨-, hreal⟩ | hreal | hreal
    · rfl
    · exact absurd (hreal.symm.trans h) (show 40 ≠ 32 by decide)
    · exact absurd (hreal.symm.trans h) (show 112 ≠ 32 by decide)
    · exact absurd (hreal.symm.trans h) (show 24 ≠ 32 by decide)
  instance_class v _ h := by
    rcases moduleVM_classReal v with ⟨-, hreal⟩ | ⟨hclass, -⟩ | hreal | hreal
    · exact absurd (hreal.symm.trans h) (show 32 ≠ 40 by decide)
    · exact hclass
    · exact absurd (hreal.symm.trans h) (show 112 ≠ 40 by decide)
    · exact absurd (hreal.symm.trans h) (show 24 ≠ 40 by decide)
  cClass := ⟨rfl, rfl⟩

end Backtracie
