import Backtracie.Writes
import Backtracie.Foundations.FirstAlong

/-!
# The graph of classes

Naming a class follows three relations of the heap: from a singleton class to what it is attached
to, from an included module to the module, and from a class to its superclass. `VM.ClassGraph`
states what MRI guarantees about them. Under these guarantees `mod_to_s` comes to an end.

* `prints_named`, `prints_anonymous`, `prints_iclass`, `prints_singleton`: what it writes, one lemma
  for each of its branches;
* `modToS_classText`: every class, module and included module is named, by induction on what it is
  attached to.
-/

namespace Backtracie

open CMem Traced

section

variable (vm : VM)

/-- The object at `v` is a class or a module. -/
def classOrModule (v : VALUE) : Prop := vm.rbType v = .tClass ∨ vm.rbType v = .tModule

/-- The superclasses of a class end with `BasicObject`. -/
inductive Descends : VALUE → Prop
  | basicObject : Descends vm.rbCBasicObject
  | step {klass : VALUE} (hne : klass ≠ vm.rbCBasicObject)
    (hclass : vm.rbType (vm.rbClassSuperclass klass) = .tClass)
    (h : Descends (vm.rbClassSuperclass klass)) : Descends klass

/-- A value that is a string, or else `nil` or `false`. -/
def stringOrNil (v : VALUE) : Prop := rtest v → vm.rbType v = .tString

/-- The first class that has a name among a class, its superclass, the superclass of that, … -/
def FirstNamed : VALUE → VALUE → Prop :=
  FirstAlong vm.rbClassSuperclass fun c => rtest (vm.rbModName c)

/-- The first class among an object, its class, the class of that, … -/
def FirstClass : VALUE → VALUE → Prop := FirstAlong vm.rbClassOf fun v => vm.rbType v = .tClass

/-- The bytes of the name of a class or module that has one. -/
def nameOf (klass : VALUE) : Bytes := (vm.rstring (vm.rbModName klass)).bytes

/-- `mod_to_s(klass)` comes to an end and writes `text`. -/
def Prints (klass : VALUE) (text : Bytes) : Prop := WritesText (fun n => modToS vm n klass) text ()

end

/-- What MRI guarantees about the graph of classes. -/
structure VM.ClassGraph (vm : VM) : Prop where
  /-- Classes are neither `nil` nor `false`. -/
  class_rtest : ∀ v, vm.rbType v = .tClass → rtest v
  descends : ∀ v, vm.rbType v = .tClass → Descends vm v
  basicObject_named : rtest (vm.rbModName vm.rbCBasicObject)
  modName_string : ∀ v, stringOrNil vm (vm.rbModName v)
  /-- Following the class of a module, one meets a class, which is not `BasicObject`. -/
  module_class : ∀ v, vm.rbType v = .tModule → ∃ c, FirstClass vm v c ∧ c ≠ vm.rbCBasicObject
  /-- The klass pointer of an included module points at the module, or at a class. -/
  iclass_klass : ∀ v, vm.rbType v = .tIClass → classOrModule vm (vm.rbasicKlass v)
  singleton_class : ∀ v, vm.flSingleton v = true → vm.rbType v = .tClass
  /-- The class of an object, without its singleton classes. -/
  classReal_class : ∀ v, vm.flSingleton v = true →
    vm.rbType (vm.rbClassReal v) = .tClass ∧ vm.flSingleton (vm.rbClassReal v) = false
  /-- The singleton class of an instance of `Module` or `Class` is attached to it. -/
  attached_module : ∀ v, vm.flSingleton v = true →
    vm.rbClassReal v = vm.rbCModule ∨ vm.rbClassReal v = vm.rbCClass →
    classOrModule vm (vm.attached v)
  /-- An object is there before its singleton class. -/
  attached_wf : WellFounded fun x v => vm.flSingleton v = true ∧ x = vm.attached v
  refinement : ∀ v, isRefinement vm v →
    classOrModule vm (vm.refinedClass v) ∧ classOrModule vm (vm.definedAt v)

/-! ## The loops -/

section

variable {vm : VM} {klass c : VALUE} {text : Bytes}

/-- The `while` loop of `mod_to_s_anon` finds the first class. -/
theorem modToSAnonClass_settles (h : FirstClass vm klass c) :
    Settles (fun n => modToSAnonClass vm n klass) [] c := by
  induction h with
  | here hclass =>
    refine (Settles.const (Yields.pure _)).succ fun n => ?_
    rw [modToSAnonClass, if_pos hclass]
  | step hclass _ ih =>
    refine ih.succ fun n => ?_
    rw [modToSAnonClass, if_neg hclass]

variable (hvm : vm.ClassGraph)

include hvm

/-- The `do` loop of `mod_to_s_anon` finds the name of the first superclass that has one: there is
a next class as long as `BasicObject` has not been met. -/
theorem modToSAnonName_settles (h : Descends vm c) (hne : c ≠ vm.rbCBasicObject) :
    ∃ named, FirstNamed vm (vm.rbClassSuperclass c) named ∧ vm.rbType named = .tClass ∧
      Settles (fun n => modToSAnonName vm n c) [] (vm.rbModName named) := by
  induction h with
  | basicObject => exact absurd rfl hne
  | @step klass _ hclass _ ih =>
    have hrtest := hvm.class_rtest _ hclass
    have hround : ∀ n, modToSAnonName vm (n + 1) klass =
        if ¬rtest (vm.rbModName (vm.rbClassSuperclass klass)) then
          modToSAnonName vm n (vm.rbClassSuperclass klass)
        else pure (vm.rbModName (vm.rbClassSuperclass klass)) := by
      intro n
      rw [modToSAnonName]
      simp only [hrtest, not_true, if_false]
    by_cases hname : rtest (vm.rbModName (vm.rbClassSuperclass klass))
    · refine ⟨_, .here hname, hclass, (Settles.const (Yields.pure _)).succ fun n => ?_⟩
      rw [hround, if_neg (not_not.2 hname)]
    · have hne' : vm.rbClassSuperclass klass ≠ vm.rbCBasicObject := by
        intro heq
        rw [heq] at hname
        exact hname hvm.basicObject_named
      obtain ⟨named, hfirst, hnamed, hsettles⟩ := ih hne'
      refine ⟨named, .step hname hfirst, hnamed, hsettles.succ fun n => ?_⟩
      rw [hround, if_pos hname]

/-! ## The branches of `mod_to_s` -/

theorem not_singleton_of_ne_class (h : vm.rbType klass ≠ .tClass) :
    vm.flSingleton klass = false := by
  cases hsingleton : vm.flSingleton klass with
  | false => rfl
  | true => exact absurd (hvm.singleton_class klass hsingleton) h

theorem prints_named (hsingleton : vm.flSingleton klass = false)
    (hname : rtest (vm.rbModName klass)) : Prints vm klass (nameOf vm klass) := by
  refine (appendValue_text (hvm.modName_string _ hname)).succ fun n => ?_
  rw [modToS, hsingleton, if_neg Bool.false_ne_true, if_neg (not_not.2 hname)]

/-- A class or module without a name: the name of the first superclass that has one, of itself or of
the first class that is met from it. -/
theorem prints_anonymous (hk : classOrModule vm klass) (hsingleton : vm.flSingleton klass = false)
    (hname : ¬rtest (vm.rbModName klass)) :
    ∃ c named, FirstClass vm klass c ∧ FirstNamed vm (vm.rbClassSuperclass c) named ∧
      vm.rbType named = .tClass ∧ Prints vm klass (nameOf vm named ++ lit "$anonymous") := by
  obtain ⟨c, hfirst, hne⟩ : ∃ c, FirstClass vm klass c ∧ c ≠ vm.rbCBasicObject := by
    rcases hk with hclass | hmodule
    · refine ⟨klass, .here hclass, ?_⟩
      rintro rfl
      exact hname hvm.basicObject_named
    · exact hvm.module_class klass hmodule
  obtain ⟨named, hnamed, htype, hsettles⟩ :=
    modToSAnonName_settles hvm (hvm.descends c hfirst.holds) hne
  have hanon : WritesText (fun n => modToSAnon vm n klass) ([] ++ ([] ++ nameOf vm named)) () :=
    (WritesText.of_settles (modToSAnonClass_settles hfirst)).bind
      ((WritesText.of_settles hsettles).bind
        (appendValue_text (hvm.modName_string _ hnamed.holds)))
  refine ⟨c, named, hfirst, hnamed, htype,
    (hanon.andThen (append_text "$anonymous" (by decide))).succ fun n => ?_⟩
  have hiclass : ¬vm.rbType klass = .tIClass := by
    rcases hk with h | h <;> rw [h] <;> decide
  rw [modToS, hsingleton, if_neg Bool.false_ne_true, if_pos hname, if_neg hiclass]

/-- An included module without a name of its own is named like the module. -/
theorem prints_iclass (hiclass : vm.rbType klass = .tIClass) (hname : ¬rtest (vm.rbModName klass))
    (h : Prints vm (vm.rbasicKlass klass) text) : Prints vm klass text := by
  have hsingleton : vm.flSingleton klass = false :=
    not_singleton_of_ne_class hvm (by rw [hiclass]; decide)
  refine WritesText.succ h fun n => ?_
  rw [modToS, hsingleton, if_neg Bool.false_ne_true, if_pos hname, if_pos hiclass]

omit hvm in
theorem prints_singleton (hsingleton : vm.flSingleton klass = true)
    (h : Prints vm (singletonOf vm klass) text) :
    Prints vm klass (text ++ lit "$singleton") := by
  refine (WritesText.andThen h (append_text "$singleton" (by decide))).succ fun n => ?_
  rw [modToS, hsingleton, if_pos rfl, modToSSingleton]

end

/-! ## The names of classes -/

/-- `$singleton`, `n` times. -/
def singletonSuffixes (n : ℕ) : Bytes := (List.replicate n (lit "$singleton")).flatten

@[simp] theorem singletonSuffixes_zero : singletonSuffixes 0 = [] := rfl

theorem singletonSuffixes_succ (n : ℕ) :
    singletonSuffixes (n + 1) = singletonSuffixes n ++ lit "$singleton" := by
  simp only [singletonSuffixes, List.replicate_succ', List.flatten_append, List.flatten_cons,
    List.flatten_nil, List.append_nil]

/-- The name of the class or module `named`, perhaps with `$anonymous`, and any number of
`$singleton`. -/
def ClassText (vm : VM) (named : VALUE) (text : Bytes) : Prop :=
  vm.classOrModuleOrIclass named ∧ rtest (vm.rbModName named) ∧ ∃ (anonymous : Bool) (n : ℕ),
    text = nameOf vm named ++ (if anonymous then lit "$anonymous" else []) ++ singletonSuffixes n

section

variable {vm : VM} {klass named : VALUE} {text : Bytes}

theorem classText_name (hk : vm.classOrModuleOrIclass klass) (hname : rtest (vm.rbModName klass)) :
    ClassText vm klass (nameOf vm klass) :=
  ⟨hk, hname, false, 0, by simp⟩

theorem ClassText.singleton (h : ClassText vm named text) :
    ClassText vm named (text ++ lit "$singleton") := by
  obtain ⟨hk, hname, anonymous, n, rfl⟩ := h
  refine ⟨hk, hname, anonymous, n + 1, ?_⟩
  rw [singletonSuffixes_succ, List.append_assoc]

variable (hvm : vm.ClassGraph)

include hvm

/-- A class or module that is not a singleton class is named at once. -/
theorem classText_of_not_singleton (hk : classOrModule vm klass)
    (hsingleton : vm.flSingleton klass = false) :
    ∃ named text, Prints vm klass text ∧ ClassText vm named text := by
  by_cases hname : rtest (vm.rbModName klass)
  · exact ⟨klass, _, prints_named hvm hsingleton hname, classText_name (hk.imp_right .inr) hname⟩
  · obtain ⟨c, named, -, hnamed, htype, hprints⟩ := prints_anonymous hvm hk hsingleton hname
    exact ⟨named, _, hprints, .inl htype, hnamed.holds, true, 0, by simp⟩

/-- **Every class and module is named**: by induction on what it is attached to. -/
theorem classText_of_classOrModule (klass : VALUE) (hk : classOrModule vm klass) :
    ∃ named text, Prints vm klass text ∧ ClassText vm named text := by
  induction klass using hvm.attached_wf.induction with
  | _ klass ih =>
    cases hsingleton : vm.flSingleton klass with
    | false => exact classText_of_not_singleton hvm hk hsingleton
    | true =>
      obtain ⟨named, text, hprints, htext⟩ :
          ∃ named text, Prints vm (singletonOf vm klass) text ∧ ClassText vm named text := by
        by_cases hreal : vm.rbClassReal klass = vm.rbCModule ∨ vm.rbClassReal klass = vm.rbCClass
        · rw [show singletonOf vm klass = vm.attached klass from if_pos hreal]
          exact ih _ ⟨hsingleton, rfl⟩ (hvm.attached_module klass hsingleton hreal)
        · rw [show singletonOf vm klass = vm.rbClassReal klass from if_neg hreal]
          obtain ⟨hclass, hfalse⟩ := hvm.classReal_class klass hsingleton
          exact classText_of_not_singleton hvm (.inl hclass) hfalse
      exact ⟨named, _, prints_singleton hsingleton hprints, htext.singleton⟩

theorem prints_exists (hk : classOrModule vm klass) : ∃ text, Prints vm klass text := by
  obtain ⟨-, text, hprints, -⟩ := classText_of_classOrModule hvm klass hk
  exact ⟨text, hprints⟩

/-- **Every class, module and included module is named.** -/
theorem modToS_classText (hk : vm.classOrModuleOrIclass klass) :
    ∃ named text, Prints vm klass text ∧ ClassText vm named text := by
  by_cases hiclass : vm.rbType klass = .tIClass
  · by_cases hname : rtest (vm.rbModName klass)
    · have hsingleton : vm.flSingleton klass = false :=
        not_singleton_of_ne_class hvm (by rw [hiclass]; decide)
      exact ⟨klass, _, prints_named hvm hsingleton hname, classText_name hk hname⟩
    · obtain ⟨named, text, hprints, htext⟩ :=
        classText_of_classOrModule hvm _ (hvm.iclass_klass klass hiclass)
      exact ⟨named, text, prints_iclass hvm hiclass hname hprints, htext⟩
  · apply classText_of_classOrModule hvm klass
    rcases hk with h | h | h
    · exact .inl h
    · exact absurd h hiclass
    · exact .inr h

/-- Naming a refinement: the class that is refined, and where. -/
theorem modToSRefinement_text {v : VALUE} (h : isRefinement vm v) :
    ∃ refined refinedText definedAt definedAtText,
      ClassText vm refined refinedText ∧ ClassText vm definedAt definedAtText ∧
      WritesText (fun n => modToSRefinement vm n v)
        (refinedText ++ (lit "$refinement@" ++ definedAtText)) () := by
  obtain ⟨hrefined, hdefined⟩ := hvm.refinement v h
  obtain ⟨refined, text, hprints, htext⟩ := classText_of_classOrModule hvm _ hrefined
  obtain ⟨definedAt, text', hprints', htext'⟩ := classText_of_classOrModule hvm _ hdefined
  exact ⟨refined, text, definedAt, text', htext, htext',
    WritesText.bind hprints ((append_text "$refinement@" (by decide)).bind hprints')⟩

theorem modToS_writes (hk : vm.classOrModuleOrIclass klass) :
    Writes (fun n => modToS vm n klass) () := by
  obtain ⟨named, text, hprints, -⟩ := modToS_classText hvm hk
  exact hprints.writes

theorem modToSRefinement_writes {v : VALUE} (h : isRefinement vm v) :
    Writes (fun n => modToSRefinement vm n v) () := by
  obtain ⟨refined, text, definedAt, text', -, -, hwrites⟩ := modToSRefinement_text hvm h
  exact hwrites.writes

end

end Backtracie
