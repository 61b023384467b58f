import ApiSurface.Proofs.Reload

/-! # No rule speaks about what has not changed

The rules compare two declarations in what each of them tells without its types, and in its types. Where
the types name the same classes, or classes that nobody knows, only the rules on the type of a field and on
the result of a method can speak, and what they ask is `keepsType`. A declaration and its counterpart in
another load of the surface are the simplest case: there is nothing to find. -/
namespace ApiSurface

variable {serial : Nat} {location : String}

/-! ## Declarations without their types -/

def ClassInfo.untyped (info : ClassInfo) : ClassInfo :=
  { info with superclass := none, interfaces := [], typeParameters := [] }

/-- What a method overrides is found by comparing types, so it goes with them. -/
def MethodInfo.untyped (info : MethodInfo) : MethodInfo :=
  { info with returnType := none, throws := [], typeParameters := [], overridden := [] }

def FieldInfo.untyped (info : FieldInfo) : FieldInfo := { info with type := default }

def ParameterInfo.untyped (info : ParameterInfo) : ParameterInfo := { info with type := default }

def Payload.untyped : Payload → Payload
  | .package info => .package info
  | .ofClass info => .ofClass info.untyped
  | .method info => .method info.untyped
  | .constructor info => .constructor info.untyped
  | .field info => .field info.untyped
  | .parameter info => .parameter info.untyped

/-- The item without its types. -/
def Item.untyped (item : Item) : Item := { item with payload := item.payload.untyped }

namespace Decl

/-- The superclass of a class, what a method returns, or what a field or a parameter holds. -/
def mainType? (d : Decl) : Option TypeRef :=
  match d.item.payload with
  | .package _ => none
  | .ofClass info => info.superclass
  | .method info | .constructor info => info.returnType
  | .field info => some info.type
  | .parameter info => some info.type

/-- The interfaces of a class, or the exceptions of a method. -/
def furtherTypes (d : Decl) : List TypeRef :=
  match d.item.payload with
  | .ofClass info => info.interfaces
  | .method info | .constructor info => info.throws
  | _ => []

theorem superclass?_eq_mainType? (d : Decl) :
    d.superclass? = if d.asClass?.isSome then d.mainType? else none := by
  unfold superclass? asClass? mainType?
  cases d.item.payload <;> rfl

variable {d : Decl}

theorem interfaces_eq_furtherTypes {info : ClassInfo} (h : d.asClass? = some info) :
    d.interfaces = d.furtherTypes := by
  unfold interfaces furtherTypes
  unfold asClass? at h ⊢
  cases hp : d.item.payload <;> rw [hp] at h <;> cases h
  rfl

theorem field_types {info : FieldInfo} (h : d.asField? = some info) :
    d.mainType? = some info.type ∧ d.asMethod? = none := by
  unfold mainType? asMethod?
  unfold asField? at h
  cases hp : d.item.payload <;> rw [hp] at h <;> cases h
  exact ⟨rfl, rfl⟩

theorem method_types {info : MethodInfo} (h : d.asMethod? = some info) :
    info.returnType = d.mainType? ∧ info.throws = d.furtherTypes := by
  unfold mainType? furtherTypes
  unfold asMethod? at h
  cases hp : d.item.payload <;> rw [hp] at h <;> cases h <;> exact ⟨rfl, rfl⟩

end Decl

/-! ## Questions to the hierarchy -/

/-- The type is called `name`, or the view does not know it. -/
def View.LeavesOpen (v : View) (name : String) (type : TypeRef) : Prop :=
  type.baseName = name ∨ v.resolve type = none

namespace View

variable (v : View) {d : Decl} {type : TypeRef} {name : String}

theorem LeavesOpen.refl (type : TypeRef) : v.LeavesOpen type.baseName type := .inl rfl

/-- Nobody can say that a class does not implement an interface that it may name itself. -/
theorem implementsInterface_ne_false (h : type ∈ d.interfaces) (hopen : v.LeavesOpen name type) :
    v.implementsInterface d name ≠ some false := by
  have huse : (⟨type, v.resolve type⟩ : InterfaceUse) ∈
      v.interfacesAbove (d :: (v.superclassChain d).members) := by
    -- The class is the first one that the walk expands.
    simp only [interfacesAbove, interfaceWalk]
    refine List.mem_append_left _ ?_
    exact List.mem_map_of_mem (f := fun t => (⟨t, v.resolve t⟩ : InterfaceUse)) h
  unfold implementsInterface
  split
  · exact fun h => by cases h
  · dsimp only
    split
    · exact fun h => by cases h
    · next hany =>
      split
      · next hall =>
        rcases hopen with rfl | hnone
        · exact (hany (List.any_eq_true.mpr ⟨_, huse, beq_self_eq_true _⟩)).elim
        · have hsome := List.all_eq_true.mp (Bool.and_eq_true_iff.mp hall).2 _ huse
          rw [hnone] at hsome
          cases hsome
      · exact fun h => by cases h

/-- Nobody can say that a class does not extend a superclass that it may name itself. -/
theorem extendsClass_ne_false (h : d.superclass? = some type) (hopen : v.LeavesOpen name type) :
    v.extendsClass d name ≠ some false := by
  unfold extendsClass
  split
  · exact fun h => by cases h
  · rw [extendsAbove, h]
    dsimp only
    split
    · exact fun h => by cases h
    · next hname =>
      rw [hopen.resolve_left hname]
      exact fun h => by cases h

end View

namespace Rules

/-- Nobody can say that a method does not throw an exception that it may name itself. -/
theorem methodThrows_ne_false (view : View) {d : Decl} {info : MethodInfo} {type : TypeRef} {name : String}
    (hd : d.asMethod? = some info) (h : type ∈ info.throws) (hopen : view.LeavesOpen name type) :
    methodThrows view d name ≠ some false := by
  have hverdict : throwsAs view name type ≠ some false := by
    unfold throwsAs
    split
    · exact fun h => by cases h
    · next hname =>
      rw [hopen.resolve_left hname]
      exact fun h => by cases h
  unfold methodThrows
  rw [hd]
  dsimp only
  split
  · exact fun h => by cases h
  · split
    · next hall =>
      have hfalse := List.all_eq_true.mp hall _ (List.mem_map_of_mem h)
      exact (hverdict (eq_of_beq hfalse)).elim
    · exact fun h => by cases h

theorem sameText_self (type : TypeRef) : sameText type type = true := beq_self_eq_true _

/-- What is not certain raises nothing. -/
theorem raiseIf_of_ne_false {o : Option Bool} (h : o ≠ some false) (kind : IssueKind) (subject : Decl)
    (message : String) : raiseIf (o == some false) kind subject message = [] :=
  if_neg (by rwa [beq_iff_eq])

/-! ## Types that are kept -/

/-- A result that names a type parameter keeps its bounds, and any other result its text. -/
def keepsResult (scope scope' : List TypeParameter) (was now : TypeRef) : Bool :=
  match namedParameter was scope, namedParameter now scope' with
  | some parameter, some parameter' => parameter.bounds == parameter'.bounds
  | _, _ => sameText was now

/-- The new declaration has the type of the old one, as far as fields and results are concerned. -/
def keepsType (old new : Decl) : Bool :=
  match old.mainType?, new.mainType? with
  | some was, some now =>
    if old.asMethod?.isSome then keepsResult old.typeScope new.typeScope was now
    else !old.asField?.isSome || sameText was now
  | _, _ => true

section Kept

variable {old new : Decl}

theorem keepsType_of_field {was now : FieldInfo} (hwas : old.asField? = some was)
    (hnow : new.asField? = some now) : keepsType old new = sameText was.type now.type := by
  obtain ⟨htype, hmethod⟩ := Decl.field_types hwas
  simp [keepsType, htype, (Decl.field_types hnow).1, hmethod, hwas]

theorem keepsType_of_result {was now : TypeRef} (hmethod : old.asMethod?.isSome)
    (hwas : old.mainType? = some was) (hnow : new.mainType? = some now) :
    keepsType old new = keepsResult old.typeScope new.typeScope was now := by
  simp [keepsType, hwas, hnow, hmethod]

theorem keepsType_of_none (h : old.mainType? = none ∨ new.mainType? = none) : keepsType old new = true := by
  unfold keepsType
  rcases h with h | h <;> rw [h]
  cases old.mainType? <;> rfl

theorem keepsType_of_other (hmethod : old.asMethod? = none) (hfield : old.asField? = none) :
    keepsType old new = true := by
  unfold keepsType
  split
  · simp [hmethod, hfield]
  · rfl

end Kept

/-- The new declaration is the old one, except for types that are written in another way. Those that the
rules look up have the names that they had, or nobody knows them. -/
structure Rewritten (context : RuleContext) (old new : Decl) : Prop where
  modifiers : new.modifiers = old.modifiers
  flags : new.flags = old.flags
  payload : new.item.payload.untyped = old.item.payload.untyped
  final : isEffectivelyFinal new = isEffectivelyFinal old
  result : ∀ was ∈ old.mainType?, ∀ now ∈ new.mainType?, now.arrayDimensions = was.arrayDimensions ∧
    (namedParameter now new.typeScope).isSome = (namedParameter was old.typeScope).isSome
  superclass : ∀ was ∈ old.superclass?, ∃ now ∈ new.superclass?, context.newView.LeavesOpen was.baseName now
  lost : ∀ was ∈ old.furtherTypes, ∃ now ∈ new.furtherTypes, context.newView.LeavesOpen was.baseName now
  gained : ∀ now ∈ new.furtherTypes, ∃ was ∈ old.furtherTypes, context.oldView.LeavesOpen now.baseName was

namespace Matched

/-! ## Rules on modifiers -/

section Common

variable {old new : Decl} (h : new.modifiers = old.modifiers)

include h

theorem visibility_eq_nil : visibility old new = [] := by
  unfold visibility
  simp [h, Visibility.isBelow, raiseIf]

theorem nullability_eq_nil : nullability old new = [] := by
  unfold nullability
  rw [h]
  split
  · rfl
  · next h h' => rw [h] at h'; cases h'
  · next h h' =>
    rw [h] at h'
    cases h'
    simp [raiseIf]

theorem staticQualifier_eq_nil : staticQualifier old new = [] := by
  unfold staticQualifier
  simp [h, raiseIf]

theorem classFinality_eq_nil : classFinality old new = [] := by
  unfold classFinality
  simp [h]

theorem methodAbstract_eq_nil : methodAbstract old new = [] := by
  unfold methodAbstract
  rw [h]
  cases old.modifiers.isAbstract <;> simp [raiseIf]

theorem methodDefault_eq_nil : methodDefault old new = [] := by
  unfold methodDefault
  simp [h, raiseIf]

theorem fieldFinality_eq_nil : fieldFinality old new = [] := by
  unfold fieldFinality
  simp [h, raiseIf]

omit h in
theorem deprecation_eq_nil (h : new.flags = old.flags) : deprecation old new = [] := by
  unfold deprecation
  simp [h, raiseIf]

omit h in
theorem methodFinality_eq_nil (h : isEffectivelyFinal new = isEffectivelyFinal old) :
    methodFinality old new = [] := by
  unfold methodFinality
  rw [h]
  split
  · split
    · next h h' => rw [h] at h'; cases h'
    · next h h' => rw [h] at h'; cases h'
    · rfl
  · rfl

end Common

/-! ## Rules on types -/

variable {context : RuleContext} {old new : Decl} (h : Rewritten context old new)

include h

theorem removedInterfaces_eq_nil (hold : old.interfaces = old.furtherTypes)
    (hnew : new.interfaces = new.furtherTypes) : removedInterfaces context old new = [] := by
  refine List.flatMap_eq_nil_iff.mpr fun was hwas => ?_
  obtain ⟨now, hnow, hopen⟩ := h.lost was (hold ▸ hwas)
  exact raiseIf_of_ne_false (context.newView.implementsInterface_ne_false (hnew ▸ hnow) hopen) _ _ _

theorem addedInterfaces_eq_nil (hold : old.interfaces = old.furtherTypes)
    (hnew : new.interfaces = new.furtherTypes) : addedInterfaces context old new = [] := by
  unfold addedInterfaces
  split
  · rfl
  · refine List.flatMap_eq_nil_iff.mpr fun now hnow => ?_
    obtain ⟨was, hwas, hopen⟩ := h.gained now (hnew ▸ hnow)
    exact raiseIf_of_ne_false (context.oldView.implementsInterface_ne_false (hold ▸ hwas) hopen) _ _ _

theorem superclass_eq_nil : Matched.superclass context old new = [] := by
  unfold Matched.superclass
  split
  · rfl
  · next was hwas =>
    obtain ⟨now, hnow, hopen⟩ := h.superclass was hwas
    exact raiseIf_of_ne_false (context.newView.extendsClass_ne_false hnow hopen) _ _ _

theorem classRules_eq_nil : classRules context old new = [] := by
  unfold classRules
  split
  · next was now hwas hnow =>
    have hkind : now.kind = was.kind := by
      have hpay := h.payload
      unfold Decl.asClass? at hwas hnow
      cases ho : old.item.payload <;> rw [ho] at hwas hpay <;> cases hwas
      cases hn : new.item.payload <;> rw [hn] at hnow hpay <;> cases hnow
      exact (congrArg ClassInfo.kind (Payload.ofClass.inj hpay :) :)
    rw [visibility_eq_nil h.modifiers, classFinality_eq_nil h.modifiers, staticQualifier_eq_nil h.modifiers,
      removedInterfaces_eq_nil h (Decl.interfaces_eq_furtherTypes hwas) (Decl.interfaces_eq_furtherTypes hnow),
      addedInterfaces_eq_nil h (Decl.interfaces_eq_furtherTypes hwas) (Decl.interfaces_eq_furtherTypes hnow),
      superclass_eq_nil h, hkind, h.modifiers]
    simp [raiseIf]
  · rfl

theorem exceptions_eq_nil : exceptions context old new = [] := by
  unfold exceptions
  split
  · next was now hwas hnow =>
    split
    · rfl
    · refine List.append_eq_nil_iff.mpr ⟨?_, ?_⟩
      · refine List.flatMap_eq_nil_iff.mpr fun type htype => ?_
        obtain ⟨type', htype', hopen⟩ := h.lost type ((Decl.method_types hwas).2 ▸ htype)
        rw [← (Decl.method_types hnow).2] at htype'
        exact raiseIf_of_ne_false (methodThrows_ne_false context.newView hnow htype' hopen) _ _ _
      · refine List.flatMap_eq_nil_iff.mpr fun type htype => ?_
        obtain ⟨type', htype', hopen⟩ := h.gained type ((Decl.method_types hnow).2 ▸ htype)
        rw [← (Decl.method_types hwas).2] at htype'
        exact raiseIf_of_ne_false (methodThrows_ne_false context.oldView hwas htype' hopen) _ _ _
  · rfl

/-- Whether a result is compatible is no question to the hierarchy. -/
theorem returnTypeCompatible_of_rewritten {was now : TypeRef} (hwas : was ∈ old.mainType?) (hnow : now ∈ new.mainType?) :
    returnTypeCompatible context old new was now =
      some (keepsResult old.typeScope new.typeScope was now) := by
  obtain ⟨hdims, hnamed⟩ := h.result was hwas now hnow
  unfold returnTypeCompatible keepsResult
  cases hw : namedParameter was old.typeScope with
  | none =>
    cases hn : namedParameter now new.typeScope with
    | none => rfl
    | some parameter =>
      rw [hw, hn] at hnamed
      cases hnamed
  | some parameter =>
    cases hn : namedParameter now new.typeScope with
    | none =>
      rw [hw, hn] at hnamed
      cases hnamed
    | some parameter' => simp only [hdims, beq_self_eq_true, Bool.true_and]

theorem returnType_map_kind (hmethod : old.asMethod?.isSome) (hmethod' : new.asMethod?.isSome) :
    (returnType context old new).map Finding.kind = if keepsType old new then [] else [.changedType] := by
  obtain ⟨was, hwas⟩ := Option.isSome_iff_exists.mp hmethod
  obtain ⟨now, hnow⟩ := Option.isSome_iff_exists.mp hmethod'
  unfold returnType
  rw [hwas, hnow, Option.bind_some, Option.bind_some, (Decl.method_types hwas).1, (Decl.method_types hnow).1]
  cases htype : old.mainType? with
  | none =>
    rw [keepsType_of_none (.inl htype)]
    rfl
  | some type =>
    cases htype' : new.mainType? with
    | none =>
      rw [keepsType_of_none (.inr htype')]
      rfl
    | some type' =>
      dsimp only
      rw [returnTypeCompatible_of_rewritten h htype htype', keepsType_of_result hmethod htype htype']
      cases keepsResult old.typeScope new.typeScope type type' <;> rfl

theorem methodRules_of_rewritten : methodRules context old new = returnType context old new := by
  unfold methodRules
  rw [visibility_eq_nil h.modifiers, nullability_eq_nil h.modifiers, methodFinality_eq_nil h.final,
    methodAbstract_eq_nil h.modifiers, methodDefault_eq_nil h.modifiers, staticQualifier_eq_nil h.modifiers,
    exceptions_eq_nil h]
  simp

theorem parameterRules_eq_nil : parameterRules old new = [] := by
  unfold parameterRules
  split
  · next was now hwas hnow =>
    have hsame : now.untyped = was.untyped := by
      have hpay := h.payload
      unfold Decl.asParameter? at hwas hnow
      cases ho : old.item.payload <;> rw [ho] at hwas hpay <;> cases hwas
      cases hn : new.item.payload <;> rw [hn] at hnow hpay <;> cases hnow
      exact Payload.parameter.inj hpay
    have hname : now.name = was.name := (congrArg ParameterInfo.name hsame :)
    have hdefault : now.hasDefault = was.hasDefault := (congrArg ParameterInfo.hasDefault hsame :)
    have hvarargs : now.isVarargs = was.isVarargs := (congrArg ParameterInfo.isVarargs hsame :)
    have hnames : parameterName old new was now = [] := by
      unfold parameterName
      rw [hname]
      cases was.name <;> simp [raiseIf]
    rw [nullability_eq_nil h.modifiers, hnames, hdefault, hvarargs]
    simp [raiseIf]
  · rfl

theorem fieldRules_map_kind (hfield : old.asField?.isSome) (hfield' : new.asField?.isSome) :
    (fieldRules old new).map Finding.kind = if keepsType old new then [] else [.changedType] := by
  obtain ⟨was, hwas⟩ := Option.isSome_iff_exists.mp hfield
  obtain ⟨now, hnow⟩ := Option.isSome_iff_exists.mp hfield'
  have hvalue : now.value = was.value := by
    have hpay := h.payload
    unfold Decl.asField? at hwas hnow
    cases ho : old.item.payload <;> rw [ho] at hwas hpay <;> cases hwas
    cases hn : new.item.payload <;> rw [hn] at hnow hpay <;> cases hnow
    exact (congrArg FieldInfo.value (Payload.field.inj hpay :) :)
  have hconstant : constantValue new was now = [] := by
    unfold constantValue
    rw [hvalue]
    cases was.value <;> simp [raiseIf]
  unfold fieldRules
  rw [hwas, hnow, keepsType_of_field hwas hnow]
  dsimp only
  rw [visibility_eq_nil h.modifiers, nullability_eq_nil h.modifiers, staticQualifier_eq_nil h.modifiers,
    fieldFinality_eq_nil h.modifiers, hconstant]
  cases sameText was.type now.type <;> rfl

/-- Of all rules only those on the types of fields and results can speak, and they do so once if the type
is not kept. -/
theorem findings_map_kind :
    (findings context old new).map Finding.kind = if keepsType old new then [] else [.changedType] := by
  have hpay := h.payload
  unfold findings
  rw [deprecation_eq_nil h.flags, classRules_eq_nil h, methodRules_of_rewritten h, parameterRules_eq_nil h]
  cases ho : old.item.payload <;> cases hn : new.item.payload <;> rw [ho, hn] at hpay <;> try cases hpay
  case method.method | constructor.constructor =>
    exact returnType_map_kind h (by rw [Decl.asMethod?, ho]; rfl) (by rw [Decl.asMethod?, hn]; rfl)
  case field.field =>
    exact fieldRules_map_kind h (by rw [Decl.asField?, ho]; rfl) (by rw [Decl.asField?, hn]; rfl)
  all_goals
    rw [keepsType_of_other (by rw [Decl.asMethod?, ho]) (by rw [Decl.asField?, ho])]
    rfl

end Matched

/-! ## Two loads of one surface -/

theorem isEffectivelyFinal_reloaded (d : Decl) :
    isEffectivelyFinal (d.reloaded serial location) = isEffectivelyFinal d := by
  unfold isEffectivelyFinal
  rw [Decl.containingClass?_reloaded, Decl.reloaded_modifiers, Option.any_map]
  rfl

theorem rewritten_reloaded (context : RuleContext) (d : Decl) :
    Rewritten context d (d.reloaded serial location) where
  modifiers := rfl
  flags := rfl
  payload := rfl
  final := isEffectivelyFinal_reloaded d
  result := by
    intro was hwas now hnow
    cases hwas.symm.trans hnow
    exact ⟨rfl, by rw [Decl.typeScope_reloaded]⟩
  superclass := fun type htype => ⟨type, htype, .refl _ type⟩
  lost := fun type htype => ⟨type, htype, .refl _ type⟩
  gained := fun type htype => ⟨type, htype, .refl _ type⟩

theorem keepsType_reloaded (d : Decl) : keepsType d (d.reloaded serial location) = true := by
  have htype : (d.reloaded serial location).mainType? = d.mainType? := rfl
  unfold keepsType keepsResult
  rw [htype, Decl.typeScope_reloaded]
  cases d.mainType? with
  | none => rfl
  | some type =>
    dsimp only
    cases namedParameter type d.typeScope <;> simp [sameText_self]

/-- Whatever the views know, nothing is found about a declaration and its counterpart. -/
theorem Matched.findings_reloaded (context : RuleContext) (d : Decl) :
    findings context d (d.reloaded serial location) = [] := by
  have hsame : Rewritten context d (d.reloaded serial location) := rewritten_reloaded context d
  have hkinds := findings_map_kind hsame
  rwa [keepsType_reloaded, if_pos rfl, List.map_eq_nil_iff] at hkinds

end Rules

end ApiSurface
