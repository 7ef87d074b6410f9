import Backtracie.Metaclasses

/-!
# What `mod_to_s` names a class

* `class_naming`: `mod_to_s` comes to an end for every class, module and included module, and writes
  a name that is not empty, perhaps with `$anonymous`, and any number of `$singleton`;
* `anonymous_named_iff`: a class or module without a name is called after the first class above it
  that has one, unless it is a module and its own class has a name, which the code steps over;
* `singleton_named_iff`: a singleton class is called after what it is attached to, unless that is
  an instance of a class below `Module`, which the code does not take for a module.
-/

namespace Backtracie

open CMem Traced

variable {vm : VM} {k named above base s : VALUE} {d : ℕ} {text : Bytes}

/-! ## Every class is named -/

/-- The name of a class, which is not empty, perhaps with `$anonymous`, and any number of
`$singleton`. -/
def IsClassName (vm : VM) (text : Bytes) : Prop :=
  ∃ named, ClassText vm named text ∧ nameOf vm named ≠ []

theorem ClassText.isClassName (h : ClassText vm named text)
    (hnames : ∀ v, rtest (vm.rbModName v) → nameOf vm v ≠ []) : IsClassName vm text :=
  ⟨named, h, hnames named h.2.1⟩

/-- **Naming a class comes to an end** and yields the name of a class; so does naming a refinement,
with the names of two. -/
theorem class_naming (vm : VM) (hvm : vm.ClassGraph)
    (hnames : ∀ v, rtest (vm.rbModName v) → nameOf vm v ≠ []) :
    (∀ klass, vm.classOrModuleOrIclass klass →
      ∃ text, IsClassName vm text ∧ Prints vm klass text) ∧
    ∀ v, isRefinement vm v → ∃ refinedText definedAtText,
      IsClassName vm refinedText ∧ IsClassName vm definedAtText ∧
      WritesText (fun n => modToSRefinement vm n v)
        (refinedText ++ (lit "$refinement@" ++ definedAtText)) () := by
  constructor
  · intro klass hk
    obtain ⟨named, text, hprints, htext⟩ := modToS_classText hvm hk
    exact ⟨text, htext.isClassName hnames, hprints⟩
  · intro v hv
    obtain ⟨refined, text, definedAt, text', htext, htext', hwrites⟩ :=
      modToSRefinement_text hvm hv
    exact ⟨text, text', htext.isClassName hnames, htext'.isClassName hnames, hwrites⟩

/-- The singleton class of the singleton class of `main`. -/
theorem class_naming_moduleVM :
    ∃ text, IsClassName moduleVM text ∧ Prints moduleVM 152 text :=
  (class_naming moduleVM moduleVM_metaclasses.toClassGraph
    fun v _ => moduleVM_rstring (moduleVM.rbModName v)).1 152 (.inl rfl)

/-! ## Classes and modules without a name -/

/-- Where the chain of superclasses starts in which a class or module without a name looks for one:
at the class itself; for a module at its class, without singleton classes. -/
def chainStart (vm : VM) (k : VALUE) : VALUE :=
  if vm.rbType k = .tClass then k else vm.rbClassReal (vm.rbClassOf k)

/-- The class or module `k` is called after the class `named`, and so are the included modules that
stand for it; a plain module is called after `Module`. -/
structure CalledAfter (vm : VM) (k named : VALUE) : Prop where
  own : Prints vm k (nameOf vm named ++ lit "$anonymous")
  included : ∀ i, vm.rbType i = .tIClass → ¬rtest (vm.rbModName i) → vm.rbasicKlass i = k →
    Prints vm i (nameOf vm named ++ lit "$anonymous")
  plain : vm.rbType k = .tModule → vm.rbClassReal (vm.rbClassOf k) = vm.rbCModule →
    rtest (vm.rbModName vm.rbCModule) → nameOf vm vm.rbCModule = lit "Module" →
    Prints vm k (lit "Module$anonymous")

/-- `k` is a class, or the class of `k`, which is stepped over, has no name (a singleton class has
none), or else the name it has is that of the next class above it that has one. -/
def StepsOverNoName (vm : VM) (k : VALUE) : Prop :=
  vm.rbType k = .tClass ∨ ¬rtest (vm.rbModName (vm.rbClassOf k)) ∨
    ∃ above, FirstNamed vm (vm.rbClassSuperclass (vm.rbClassOf k)) above ∧
      nameOf vm above = nameOf vm (vm.rbClassOf k)

section

variable (hvm : vm.ClassGraph)

include hvm

/-- A class without a name: the first class with a name, from the class itself. -/
theorem prints_anonymous_class (hclass : vm.rbType k = .tClass)
    (hsingleton : vm.flSingleton k = false) (hname : ¬rtest (vm.rbModName k)) :
    ∃ named, FirstNamed vm k named ∧ Prints vm k (nameOf vm named ++ lit "$anonymous") := by
  obtain ⟨c, named, hfirst, hnamed, -, hprints⟩ :=
    prints_anonymous hvm (.inl hclass) hsingleton hname
  obtain rfl := FirstAlong.eq_of_holds hfirst hclass
  exact ⟨named, .step hname hnamed, hprints⟩

/-- A module without a name: the first class with a name above its class. -/
theorem prints_anonymous_module (hmodule : vm.rbType k = .tModule)
    (hclass : vm.rbType (vm.rbClassOf k) = .tClass) (hname : ¬rtest (vm.rbModName k)) :
    ∃ above, FirstNamed vm (vm.rbClassSuperclass (vm.rbClassOf k)) above ∧
      Prints vm k (nameOf vm above ++ lit "$anonymous") := by
  have hne : vm.rbType k ≠ .tClass := by
    rw [hmodule]
    decide
  obtain ⟨c, above, hfirst, habove, -, hprints⟩ :=
    prints_anonymous hvm (.inr hmodule) (not_singleton_of_ne_class hvm hne) hname
  obtain rfl := (FirstAlong.next_of_not hfirst hne).eq_of_holds hclass
  exact ⟨above, habove, hprints⟩

end

theorem Prints.name_unique {name name' : Bytes} (h : Prints vm k (name ++ lit "$anonymous"))
    (h' : Prints vm k (name' ++ lit "$anonymous")) : name = name' :=
  List.append_cancel_right (WritesText.unique h h')

/-- What is written for the class or module itself decides the rest. -/
theorem calledAfter_iff (hvm : vm.ClassGraph) (hnamed : FirstNamed vm (chainStart vm k) named) :
    CalledAfter vm k named ↔ Prints vm k (nameOf vm named ++ lit "$anonymous") := by
  constructor
  · exact CalledAfter.own
  · intro hown
    refine ⟨hown, fun i hiclass hname hklass => ?_, fun hmodule hreal hname htext => ?_⟩
    · exact prints_iclass hvm hiclass hname (hklass ▸ hown)
    · have hstart : chainStart vm k = vm.rbCModule := by
        rw [chainStart, if_neg (by rw [hmodule]; decide), hreal]
      rw [hstart] at hnamed
      rw [FirstAlong.eq_of_holds hnamed hname, htext] at hown
      exact hown

section

variable (hvm : vm.Metaclasses)

include hvm

/-- The chain of superclasses of a module is that of its class, singleton classes included. -/
theorem firstNamed_chainStart (hmodule : vm.rbType k = .tModule) :
    FirstNamed vm (chainStart vm k) named ↔ FirstNamed vm (vm.rbClassOf k) named := by
  rw [chainStart, if_neg (by rw [hmodule]; decide)]
  exact firstNamed_classReal hvm (hvm.classOf_module k hmodule)

theorem module_calledAfter_iff (hmodule : vm.rbType k = .tModule)
    (hname : ¬rtest (vm.rbModName k)) :
    ∃ named, FirstNamed vm (chainStart vm k) named ∧
      (CalledAfter vm k named ↔ StepsOverNoName vm k) := by
  have hne : vm.rbType k ≠ .tClass := by
    rw [hmodule]
    decide
  obtain ⟨above, habove, hprints⟩ :=
    prints_anonymous_module hvm.toClassGraph hmodule (hvm.classOf_module k hmodule) hname
  by_cases hclassOf : rtest (vm.rbModName (vm.rbClassOf k))
  · have hnamed : FirstNamed vm (chainStart vm k) (vm.rbClassOf k) :=
      (firstNamed_chainStart hvm hmodule).2 (.here hclassOf)
    refine ⟨_, hnamed, (calledAfter_iff hvm.toClassGraph hnamed).trans ⟨fun hown => ?_, ?_⟩⟩
    · exact .inr (.inr ⟨above, habove, hprints.name_unique hown⟩)
    · rintro (hclass | hanonymous | ⟨above', habove', heq⟩)
      · exact absurd hclass hne
      · exact absurd hclassOf hanonymous
      · rw [← heq, ← FirstAlong.unique habove habove']
        exact hprints
  · have hnamed : FirstNamed vm (chainStart vm k) above :=
      (firstNamed_chainStart hvm hmodule).2 (.step hclassOf habove)
    exact ⟨above, hnamed,
      iff_of_true ((calledAfter_iff hvm.toClassGraph hnamed).2 hprints) (.inr (.inl hclassOf))⟩

end

/-- **A class or module without a name is called after the first class with one** in its chain of
superclasses if and only if the class that is stepped over has no name of its own to give. -/
theorem anonymous_named_iff (vm : VM) (k : VALUE) (hvm : vm.Metaclasses)
    (hk : classOrModule vm k) (hsingleton : vm.flSingleton k = false)
    (hname : ¬rtest (vm.rbModName k)) :
    ∃ named, FirstNamed vm (chainStart vm k) named ∧
      (CalledAfter vm k named ↔ StepsOverNoName vm k) := by
  rcases hk with hclass | hmodule
  · obtain ⟨named, hnamed, hprints⟩ :=
      prints_anonymous_class hvm.toClassGraph hclass hsingleton hname
    have hstart : FirstNamed vm (chainStart vm k) named := by
      rwa [chainStart, if_pos hclass]
    exact ⟨named, hstart,
      iff_of_true ((calledAfter_iff hvm.toClassGraph hstart).2 hprints) (.inl hclass)⟩
  · exact module_calledAfter_iff hvm hmodule hname

/-- A class below `Object` without a name. -/
theorem anonymous_named_iff_class :
    ∃ named, FirstNamed moduleVM 136 named ∧ CalledAfter moduleVM 136 named := by
  obtain ⟨named, hnamed, hiff⟩ :=
    anonymous_named_iff moduleVM 136 moduleVM_metaclasses (.inl rfl) rfl (fun h => h.2 rfl)
  exact ⟨named, hnamed, hiff.2 (.inl rfl)⟩

/-- **A module that has no singleton class yet**: the code steps over `Module` and calls it after
`Object`. -/
theorem anonymous_module_object :
    moduleVM.Metaclasses ∧ moduleVM.rbType 104 = .tModule ∧ ¬rtest (moduleVM.rbModName 104) ∧
    moduleVM.rbClassOf 104 = moduleVM.rbCModule ∧ nameOf moduleVM 32 = lit "Module" ∧
    Prints moduleVM 104 (lit "Object$anonymous") ∧
    ¬∃ named, FirstNamed moduleVM (chainStart moduleVM 104) named ∧
      CalledAfter moduleVM 104 named := by
  obtain ⟨above, habove, hprints⟩ := @prints_anonymous_module moduleVM 104
    moduleVM_metaclasses.toClassGraph rfl rfl (fun h => h.2 rfl)
  obtain rfl : above = 24 :=
    FirstAlong.eq_of_holds habove (show rtest 324 by decide)
  refine ⟨moduleVM_metaclasses, rfl, fun h => h.2 rfl, rfl, rfl, hprints, ?_⟩
  rintro ⟨named, hnamed, hcalled⟩
  obtain rfl : named = 32 :=
    FirstAlong.eq_of_holds hnamed (show rtest 332 by decide)
  exact absurd (hprints.name_unique hcalled.own) (by decide)

/-! ## Singleton classes -/

/-- Taking the singleton class, `d` times, leads from `base` to `s`. -/
inductive NthSingleton (vm : VM) (base : VALUE) : ℕ → VALUE → Prop
  | zero : NthSingleton vm base 0 base
  | succ {d : ℕ} {s : VALUE} (hs : vm.flSingleton s = true)
    (h : NthSingleton vm base d (vm.attached s)) : NthSingleton vm base (d + 1) s

/-- What a singleton class attached to `x` should be called after: a class or module itself, the
class of another object, without singleton classes. -/
def standsFor (vm : VM) (x : VALUE) : VALUE :=
  if vm.rbType x = .tClass ∨ vm.rbType x = .tModule then x else vm.rbClassReal (vm.rbClassOf x)

/-- The singleton class `s` is called after what it is attached to, and after the object at the
bottom, with one `$singleton` for each level. -/
structure CalledAfterAttached (vm : VM) (base : VALUE) (d : ℕ) (s : VALUE) : Prop where
  attached : ∃ text, Prints vm (standsFor vm (vm.attached s)) text ∧
    Prints vm s (text ++ lit "$singleton")
  nested : ∃ text, Prints vm (standsFor vm base) text ∧ Prints vm s (text ++ singletonSuffixes d)

/-- The names of the module `m` and the class `c` make up the same text: both have the same name, or
none, or the name of the module happens to be what is written for the class. -/
def SameName (vm : VM) (m c : VALUE) : Prop :=
  if rtest (vm.rbModName m) then
    if rtest (vm.rbModName c) then nameOf vm m = nameOf vm c
    else ∃ named, FirstNamed vm c named ∧ nameOf vm m = nameOf vm named ++ lit "$anonymous"
  else ¬rtest (vm.rbModName c)

/-- `base` is not an instance of a class below `Module`, or has the name of that class. -/
def TakenForModule (vm : VM) (base : VALUE) : Prop :=
  vm.rbType base = .tModule → vm.rbClassReal (vm.rbClassOf base) = vm.rbCModule ∨
    SameName vm base (vm.rbClassReal (vm.rbClassOf base))

theorem nthSingleton_exists (hvm : vm.ClassGraph) (s : VALUE) :
    ∃ base d, vm.flSingleton base = false ∧ NthSingleton vm base d s := by
  induction s using hvm.attached_wf.induction with
  | _ s ih =>
    cases hs : vm.flSingleton s with
    | false => exact ⟨s, 0, hs, .zero⟩
    | true =>
      obtain ⟨base, d, hbase, h⟩ := ih _ ⟨hs, rfl⟩
      exact ⟨base, d + 1, hbase, .succ hs h⟩

section

variable (hvm : vm.Metaclasses)

include hvm

/-- The singleton class of a class, singleton classes included. -/
theorem prints_metaclass (hs : vm.flSingleton s = true)
    (hclass : vm.rbType (vm.attached s) = .tClass) (h : Prints vm (vm.attached s) text) :
    Prints vm s (text ++ lit "$singleton") := by
  refine prints_singleton hs ?_
  rwa [singletonOf, if_pos (.inr (classReal_metaclass hvm hs hclass))]

/-- The first singleton class decides for those above it. -/
theorem NthSingleton.first (h : NthSingleton vm base (d + 1) s) :
    ∃ first, vm.flSingleton first = true ∧ vm.attached first = base ∧
      ∀ text, Prints vm first (text ++ lit "$singleton") →
        Prints vm s (text ++ singletonSuffixes (d + 1)) := by
  induction d generalizing s with
  | zero =>
    obtain _ | ⟨hs, hbase⟩ := h
    generalize hx : vm.attached s = x at hbase
    cases hbase
    exact ⟨s, hs, hx, fun text h => h⟩
  | succ d ih =>
    obtain _ | ⟨hs, hbase⟩ := h
    have hclass : vm.rbType (vm.attached s) = .tClass := by
      generalize vm.attached s = x at hbase
      obtain _ | ⟨hx, -⟩ := hbase
      exact hvm.singleton_class x hx
    obtain ⟨first, hfirst, hattached, hprints⟩ := ih hbase
    refine ⟨first, hfirst, hattached, fun text h => ?_⟩
    rw [singletonSuffixes_succ, ← List.append_assoc]
    exact prints_metaclass hvm hs hclass (hprints text h)

/-- What a singleton class is attached to has a name. -/
theorem standsFor_prints (hs : vm.flSingleton s = true) :
    ∃ text, Prints vm (standsFor vm (vm.attached s)) text := by
  have hk : classOrModule vm (standsFor vm (vm.attached s)) := by
    unfold standsFor
    split
    · assumption
    · next hne =>
      obtain ⟨-, hclassOf⟩ := hvm.attached_object s hs fun h => hne (.inl h)
      rw [hclassOf]
      exact .inl (hvm.classReal_class s hs).1
  exact prints_exists hvm.toClassGraph hk

theorem singleton_prints (hs : vm.flSingleton s = true) :
    ∃ text, Prints vm s (text ++ lit "$singleton") := by
  have hk : classOrModule vm (singletonOf vm s) := by
    by_cases hreal : vm.rbClassReal s = vm.rbCModule ∨ vm.rbClassReal s = vm.rbCClass
    · rw [singletonOf, if_pos hreal]
      exact hvm.attached_module s hs hreal
    · rw [singletonOf, if_neg hreal]
      exact .inl (hvm.classReal_class s hs).1
  obtain ⟨text, hprints⟩ := prints_exists hvm.toClassGraph hk
  exact ⟨text, prints_singleton hs hprints⟩

/-- A module without a name that has a singleton class: the class that is stepped over is the
singleton class, which has no name either. -/
theorem prints_anonymous_of_singleton (hs : vm.flSingleton s = true) (hclassOf : vm.rbClassOf k = s)
    (hmodule : vm.rbType k = .tModule) (hname : ¬rtest (vm.rbModName k)) :
    ∃ named, FirstNamed vm (vm.rbClassReal s) named ∧
      Prints vm k (nameOf vm named ++ lit "$anonymous") := by
  have hclass : vm.rbType s = .tClass := hvm.singleton_class s hs
  rw [← hclassOf] at hclass
  obtain ⟨named, hnamed, hprints⟩ :=
    prints_anonymous_module hvm.toClassGraph hmodule hclass hname
  rw [hclassOf] at hclass hnamed
  refine ⟨named, (firstNamed_classReal hvm hclass).2 ?_, hprints⟩
  exact .step (hvm.singleton_anonymous s hs) hnamed

/-- The singleton class of a module, and the class of the module without singleton classes. -/
theorem sameName_iff {text' : Bytes} (hs : vm.flSingleton s = true) (hattached : vm.attached s = k)
    (hmodule : vm.rbType k = .tModule) (h : Prints vm k text)
    (h' : Prints vm (vm.rbClassReal s) text') :
    text = text' ↔ SameName vm k (vm.rbClassReal s) := by
  have hne : vm.rbType (vm.attached s) ≠ .tClass := by
    rw [hattached, hmodule]
    decide
  have hclassOf : vm.rbClassOf k = s := hattached ▸ (hvm.attached_object s hs hne).2
  have hsingleton : vm.flSingleton k = false :=
    not_singleton_of_ne_class hvm.toClassGraph (hattached ▸ hne)
  obtain ⟨hreal, hrealSingleton⟩ := hvm.classReal_class s hs
  unfold SameName
  by_cases hname : rtest (vm.rbModName k)
  · rw [if_pos hname, h.unique (prints_named hvm.toClassGraph hsingleton hname)]
    by_cases hrealName : rtest (vm.rbModName (vm.rbClassReal s))
    · rw [if_pos hrealName, h'.unique (prints_named hvm.toClassGraph hrealSingleton hrealName)]
    · obtain ⟨named, hnamed, hprints⟩ :=
        prints_anonymous_class hvm.toClassGraph hreal hrealSingleton hrealName
      rw [if_neg hrealName, h'.unique hprints]
      constructor
      · exact fun heq => ⟨named, hnamed, heq⟩
      · rintro ⟨named', hnamed', heq⟩
        rw [heq, FirstAlong.unique hnamed hnamed']
  · obtain ⟨above, hfirst, hprints⟩ :=
      prints_anonymous_of_singleton hvm hs hclassOf hmodule hname
    rw [if_neg hname, h.unique hprints]
    by_cases hrealName : rtest (vm.rbModName (vm.rbClassReal s))
    · rw [h'.unique (prints_named hvm.toClassGraph hrealSingleton hrealName),
        hfirst.eq_of_holds hrealName]
      refine iff_of_false (fun heq => ?_) (not_not.2 hrealName)
      simpa [lit] using congrArg List.length heq
    · obtain ⟨named, hnamed, hprints'⟩ :=
        prints_anonymous_class hvm.toClassGraph hreal hrealSingleton hrealName
      rw [h'.unique hprints', FirstAlong.unique hfirst hnamed]
      exact iff_of_true rfl hrealName

/-- The singleton class of a module: it is called after the module if that is an instance of
`Module` itself, and after the class of the module otherwise. -/
theorem moduleSingleton_iff (hs : vm.flSingleton s = true) (hattached : vm.attached s = base)
    (hmodule : vm.rbType base = .tModule) (hcclass : vm.rbClassReal s ≠ vm.rbCClass)
    (hbase : Prints vm base text) :
    Prints vm s (text ++ lit "$singleton") ↔
      vm.rbClassReal s = vm.rbCModule ∨ SameName vm base (vm.rbClassReal s) := by
  by_cases hreal : vm.rbClassReal s = vm.rbCModule
  · refine iff_of_true (prints_singleton hs ?_) (.inl hreal)
    rwa [singletonOf, if_pos (.inl hreal), hattached]
  · have hsingletonOf : singletonOf vm s = vm.rbClassReal s :=
      if_neg (not_or.2 ⟨hreal, hcclass⟩)
    obtain ⟨hrealClass, -⟩ := hvm.classReal_class s hs
    obtain ⟨text', hprints⟩ := prints_exists hvm.toClassGraph (.inl hrealClass)
    have hs' : Prints vm s (text' ++ lit "$singleton") :=
      prints_singleton hs (hsingletonOf ▸ hprints)
    calc Prints vm s (text ++ lit "$singleton")
        ↔ text = text' :=
          ⟨fun h => List.append_cancel_right (WritesText.unique h hs'), fun h => h ▸ hs'⟩
      _ ↔ SameName vm base (vm.rbClassReal s) :=
          sameName_iff hvm hs hattached hmodule hbase hprints
      _ ↔ _ := (or_iff_right hreal).symm

/-- **The singleton class of an object** that is not one itself: the class is called after the
object if the object is taken for what it is. -/
theorem firstSingleton_iff (hs : vm.flSingleton s = true) (hattached : vm.attached s = base)
    (hbase : Prints vm (standsFor vm base) text) :
    Prints vm s (text ++ lit "$singleton") ↔ TakenForModule vm base := by
  unfold TakenForModule
  by_cases hclass : vm.rbType base = .tClass
  · rw [standsFor, if_pos (.inl hclass), ← hattached] at hbase
    refine iff_of_true (prints_metaclass hvm hs (hattached ▸ hclass) hbase) fun hmodule => ?_
    rw [hclass] at hmodule
    cases hmodule
  obtain ⟨hiclass, hclassOf⟩ := hvm.attached_object s hs (hattached ▸ hclass)
  rw [hattached] at hiclass hclassOf
  have hcclass : vm.rbClassReal s ≠ vm.rbCClass := fun h =>
    hclass (hvm.instance_class base hiclass (by rw [hclassOf, h]))
  rw [hclassOf]
  by_cases hmodule : vm.rbType base = .tModule
  · rw [standsFor, if_pos (.inr hmodule)] at hbase
    rw [moduleSingleton_iff hvm hs hattached hmodule hcclass hbase]
    exact (imp_iff_right hmodule).symm
  · have hcmodule : vm.rbClassReal s ≠ vm.rbCModule := fun h =>
      hmodule (hvm.instance_module base hiclass (by rw [hclassOf, h]))
    refine iff_of_true (prints_singleton hs ?_) fun h => absurd h hmodule
    rw [standsFor, if_neg (not_or.2 ⟨hclass, hmodule⟩), hclassOf] at hbase
    rwa [singletonOf, if_neg (not_or.2 ⟨hcmodule, hcclass⟩)]

end

section

variable (hvm : vm.Metaclasses)

include hvm

/-- The name by levels and the name by what is attached. -/
theorem calledAfterAttached_iff (h : NthSingleton vm base (d + 1) s) :
    CalledAfterAttached vm base (d + 1) s ↔
      ∃ text, Prints vm (standsFor vm base) text ∧
        Prints vm s (text ++ singletonSuffixes (d + 1)) := by
  constructor
  · exact CalledAfterAttached.nested
  · intro hnested
    refine ⟨?_, hnested⟩
    obtain _ | ⟨hs, hbelow⟩ := h
    cases hattached : vm.flSingleton (vm.attached s) with
    | true =>
      have hclass : vm.rbType (vm.attached s) = .tClass := hvm.singleton_class _ hattached
      obtain ⟨text, hprints⟩ := standsFor_prints hvm hs
      refine ⟨text, hprints, prints_metaclass hvm hs hclass ?_⟩
      rwa [standsFor, if_pos (.inl hclass)] at hprints
    | false =>
      generalize vm.attached s = x at hbelow hattached
      cases hbelow with
      | zero => exact hnested
      | succ hx _ =>
        rw [hx] at hattached
        cases hattached

theorem nested_iff (h : NthSingleton vm base (d + 1) s) :
    (∃ text, Prints vm (standsFor vm base) text ∧
      Prints vm s (text ++ singletonSuffixes (d + 1))) ↔ TakenForModule vm base := by
  obtain ⟨first, hfirst, hattached, hprints⟩ := NthSingleton.first hvm h
  obtain ⟨text, hbase⟩ := standsFor_prints hvm hfirst
  rw [hattached] at hbase
  rw [← firstSingleton_iff hvm hfirst hattached hbase]
  constructor
  · rintro ⟨text', hbase', hs⟩
    obtain ⟨text₁, hfirst₁⟩ := singleton_prints hvm hfirst
    have heq : text' = text₁ :=
      List.append_cancel_right (WritesText.unique hs (hprints text₁ hfirst₁))
    rwa [WritesText.unique hbase hbase', heq]
  · exact fun hfirst' => ⟨text, hbase, hprints text hfirst'⟩

end

/-- **A singleton class is called after what it is attached to**, at every level, if and only if the
object at the bottom is taken for a module where it is one. -/
theorem singleton_named_iff (vm : VM) (s : VALUE) (hvm : vm.Metaclasses)
    (hs : vm.flSingleton s = true) :
    ∃ base d, vm.flSingleton base = false ∧ NthSingleton vm base d s ∧
      (CalledAfterAttached vm base d s ↔ TakenForModule vm base) := by
  obtain ⟨base, d, hbase, h⟩ := nthSingleton_exists hvm.toClassGraph s
  refine ⟨base, d, hbase, h, ?_⟩
  cases d with
  | zero =>
    cases h
    rw [hs] at hbase
    cases hbase
  | succ d => exact (calledAfterAttached_iff hvm h).trans (nested_iff hvm h)

/-- The singleton class of the singleton class of `main`. -/
theorem singleton_named_iff_main :
    ∃ base d, moduleVM.flSingleton base = false ∧ NthSingleton moduleVM base d 152 ∧
      (CalledAfterAttached moduleVM base d 152 ↔ TakenForModule moduleVM base) :=
  singleton_named_iff moduleVM 152 moduleVM_metaclasses rfl

/-- **A module of a class below `Module`**: its singleton class is called after that class. -/
theorem singleton_of_myModule :
    moduleVM.Metaclasses ∧ moduleVM.flSingleton 128 = true ∧ moduleVM.attached 128 = 120 ∧
    moduleVM.rbType 120 = .tModule ∧ Prints moduleVM 120 (lit "M") ∧
    Prints moduleVM 128 (lit "MyModule$singleton") ∧
    ¬∃ base d, moduleVM.flSingleton base = false ∧ NthSingleton moduleVM base d 128 ∧
      CalledAfterAttached moduleVM base d 128 := by
  have hmodule : Prints moduleVM 120 (lit "M") :=
    prints_named moduleVM_metaclasses.toClassGraph rfl (show rtest 420 by decide)
  have hclass : Prints moduleVM 112 (lit "MyModule") :=
    prints_named moduleVM_metaclasses.toClassGraph rfl (show rtest 412 by decide)
  have hs : Prints moduleVM 128 (lit "MyModule" ++ lit "$singleton") := prints_singleton rfl hclass
  refine ⟨moduleVM_metaclasses, rfl, rfl, rfl, hmodule, hs, ?_⟩
  rintro ⟨base, d, -, -, ⟨text, hattached, htext⟩, -⟩
  rw [WritesText.unique hattached hmodule] at htext
  exact absurd (WritesText.unique htext hs) (by decide)

end Backtracie
