import ApiSurface.Proofs.CounterpartEvents
import ApiSurface.Proofs.CounterpartWalks

/-! # Changes are told alike

What the rules say about the two versions of a declaration reads the same if both versions are replaced by
their counterparts. A rule reads what the declarations say of themselves, what they are declared in, and
what the hierarchy answers, and none of it depends on the order of declaration. -/
namespace ApiSurface

open Arena Surface

/-- What a reader learns from a finding. -/
structure Telling where
  kind : IssueKind
  subject : String
  message : String

def Finding.told (finding : Finding) : Telling :=
  { kind := finding.kind, subject := finding.subject.describe, message := finding.message }

/-- What a reader learns from a rule that raises one finding or none. -/
theorem told_raiseIf (condition : Bool) (kind : IssueKind) (subject : Decl) (message : String) :
    (raiseIf condition kind subject message).map Finding.told =
      if condition then [⟨kind, subject.describe, message⟩] else [] := by
  unfold raiseIf
  split <;> rfl

/-- The rules of two checks consult views that correspond, and the same filter. -/
structure Links.Contexts (l : Links) (context context' : RuleContext) : Prop where
  old : l.Views context.oldView context'.oldView
  new : l.Views context.newView context'.newView
  filter : context'.filter = context.filter
  steady : context.filter.Steady

namespace Decl.Namesake

variable {d d' : Decl}

/-- Of a method or constructor the namesake returns and throws the same. -/
theorem returnType (h : d.Namesake d') :
    (d'.asMethod?.bind (·.returnType)) = d.asMethod?.bind (·.returnType) := by
  refine h.observe (f := fun d => d.asMethod?.bind (·.returnType)) fun d => ?_
  unfold Decl.asMethod? Item.lone Item.bare
  cases d.item.payload <;> rfl

theorem any_asMethod? (h : d.Namesake d') {f : MethodInfo → Bool} (hf : ∀ info, f info.bare = f info) :
    d'.asMethod?.any f = d.asMethod?.any f := by
  have hm := congrArg (Option.any f) h.map_asMethod?
  simpa only [Option.any_map, hf] using hm

/-- Of a field the namesake has the same name, type and value. -/
theorem asField? (h : d.Namesake d') : Option.Rel (fun f f' : FieldInfo =>
    f'.name = f.name ∧ f'.type = f.type ∧ f'.value = f.value) d.asField? d'.asField? :=
  rel_imp (rel_of_map_eq h.map_asField?) fun _ _ hbare => ⟨(congrArg FieldInfo.name hbare :),
    (congrArg FieldInfo.type hbare :), (congrArg FieldInfo.value hbare :)⟩

theorem declaredType? (h : d.Namesake d') : Rules.declaredType? d' = Rules.declaredType? d := by
  refine h.observe fun d => ?_
  unfold Rules.declaredType? Item.lone Item.bare
  cases d.item.payload <;> rfl

end Decl.Namesake

namespace Rules

variable {l : Links} {context context' : RuleContext} {v v' : View} {d d' old old' new new' : Decl}

/-! ## What single declarations answer -/

theorem hasAccessibleConstructor_counterpart (hl : l.Sound) (h : l.Counterpart d d') :
    hasAccessibleConstructor d' = hasAccessibleConstructor d := by
  refine (h.constructors hl).any_eq fun c c' hc => ?_
  rw [(hc.namesake hl).modifiers, (hc.namesake hl).isEffectively]

theorem isEffectivelyFinal_namesake (h : d.Namesake d') :
    isEffectivelyFinal d' = isEffectivelyFinal d := by
  have howner := any_of_rel h.containingClass?
    (f := fun owner => owner.modifiers.isFinal || owner.modifiers.isSealed)
    (g := fun owner => owner.modifiers.isFinal || owner.modifiers.isSealed)
    fun _ _ hc => by rw [hc.modifiers]
  unfold isEffectivelyFinal
  rw [h.modifiers, howner]

theorem ownerKind_namesake (h : d.Namesake d') :
    (d'.containingClass?.bind Decl.classKind?) = d.containingClass?.bind Decl.classKind? :=
  bind_of_rel h.containingClass? fun _ _ hc => hc.classKind?

theorem isInterfaceMember_namesake (h : d.Namesake d') :
    Matched.isInterfaceMember d' = Matched.isInterfaceMember d := by
  unfold Matched.isInterfaceMember
  rw [ownerKind_namesake h]

theorem isEnumAccessor_counterpart (hl : l.Sound) (h : l.Counterpart d d') :
    isEnumAccessor d' = isEnumAccessor d := by
  have hn := h.namesake hl
  have hparameters := h.parameters hl
  unfold isEnumAccessor
  rcases rel_cases hn.asMethod? with ⟨hd, hd'⟩ | ⟨info, info', hd, hd', hbare⟩
  · rw [hd, hd']
  · have hname : info'.name = info.name := (congrArg MethodInfo.name hbare :)
    rw [hd, hd']
    simp only [ownerKind_namesake hn, hname, hn.parameterTypes, isEmpty_of_forall₂ hparameters,
      hparameters.length_eq]

theorem isFinalizer_counterpart (hl : l.Sound) (h : l.Counterpart d d') :
    isFinalizer d' = isFinalizer d := by
  have hname := (h.namesake hl).any_asMethod? (f := fun info => info.name == "finalize") fun _ => rfl
  unfold isFinalizer
  rw [hname, isEmpty_of_forall₂ (h.parameters hl)]

theorem methodThrows_counterpart (hv : l.Views v v') (hl : l.Sound) (h : l.Counterpart d d')
    (name : String) : methodThrows v' d' name = methodThrows v d name := by
  have hthrows : throwsAs v' name = throwsAs v name := by
    funext type
    unfold throwsAs
    rw [bind_of_rel ((hv.alike hl).resolve type) fun _ _ hd =>
      (hv.alike hl).extendsClass hd name]
  unfold methodThrows
  rcases rel_cases (h.namesake hl).asMethod? with ⟨hd, hd'⟩ | ⟨info, info', hd, hd', hbare⟩
  · rw [hd, hd']
  · have hsame : info'.throws = info.throws := (congrArg MethodInfo.throws hbare :)
    rw [hd, hd']
    dsimp only
    rw [hsame, hthrows]

namespace Matched

/-! ## Rules that look at the two versions alone -/

theorem visibility_namesake (ho : old.Namesake old') (hn : new.Namesake new') :
    (visibility old' new').map Finding.told = (visibility old new).map Finding.told := by
  unfold visibility
  simp only [told_raiseIf, ho.modifiers, hn.modifiers, hn.title, hn.describe]

theorem nullability_namesake (ho : old.Namesake old') (hn : new.Namesake new') :
    (nullability old' new').map Finding.told = (nullability old new).map Finding.told := by
  have hrole : nullabilityRole new' = nullabilityRole new := by
    refine hn.observe fun d => ?_
    unfold nullabilityRole Item.lone Item.bare
    cases d.item.payload <;> rfl
  have hbreaks : ∀ was, nullabilityBreaks was new' = nullabilityBreaks was new := by
    intro was
    refine hn.observe fun d => ?_
    unfold nullabilityBreaks Decl.modifiers Item.lone Item.bare
    cases d.item.payload <;> rfl
  unfold nullability
  rw [ho.modifiers, hn.modifiers]
  cases old.modifiers.nullability with
  | none => rfl
  | some was =>
    cases new.modifiers.nullability with
    | none => simp only [told_raiseIf, hn.declaredType?, hn.describe]
    | some now => simp only [told_raiseIf, hrole, hbreaks, hn.describe]

theorem staticQualifier_namesake (ho : old.Namesake old') (hn : new.Namesake new') :
    (staticQualifier old' new').map Finding.told = (staticQualifier old new).map Finding.told := by
  unfold staticQualifier
  simp only [told_raiseIf, ho.modifiers, hn.modifiers, hn.title, hn.describe]

theorem deprecation_namesake (ho : old.Namesake old') (hn : new.Namesake new') :
    (deprecation old' new').map Finding.told = (deprecation old new).map Finding.told := by
  unfold deprecation
  simp only [told_raiseIf, ho.flags, hn.flags, hn.title, hn.describe]

theorem methodAbstract_namesake (ho : old.Namesake old') (hn : new.Namesake new') :
    (methodAbstract old' new').map Finding.told = (methodAbstract old new).map Finding.told := by
  have hinherited := ho.any_asMethod? (f := MethodInfo.isInherited) fun _ => rfl
  unfold methodAbstract
  simp only [told_raiseIf, ho.modifiers, hn.modifiers, hn.title, hn.describe, ho.isPartial,
    isInterfaceMember_namesake hn, hinherited]

theorem methodDefault_namesake (ho : old.Namesake old') (hn : new.Namesake new') :
    (methodDefault old' new').map Finding.told = (methodDefault old new).map Finding.told := by
  unfold methodDefault
  simp only [told_raiseIf, ho.modifiers, hn.modifiers, hn.title, hn.describe]

theorem fieldFinality_namesake (ho : old.Namesake old') (hn : new.Namesake new') :
    (fieldFinality old' new').map Finding.told = (fieldFinality old new).map Finding.told := by
  unfold fieldFinality
  simp only [told_raiseIf, ho.modifiers, hn.modifiers, hn.title, hn.describe]

theorem fieldRules_namesake (ho : old.Namesake old') (hn : new.Namesake new') :
    (fieldRules old' new').map Finding.told = (fieldRules old new).map Finding.told := by
  unfold fieldRules
  rcases rel_cases ho.asField? with ⟨hold, hold'⟩ | ⟨was, was', hold, hold', _, hwas, hbefore⟩
  · rw [hold, hold']
  · rcases rel_cases hn.asField? with ⟨hnew, hnew'⟩ | ⟨now, now', hnew, hnew', _, hnow, hafter⟩
    · rw [hold, hold', hnew, hnew']
    · have hvalue : (constantValue new' was' now').map Finding.told =
          (constantValue new was now).map Finding.told := by
        unfold constantValue
        rw [hbefore, hafter]
        cases was.value <;> cases now.value <;>
          simp only [told_raiseIf, List.map_nil, hn.title, hn.describe]
      rw [hold, hold', hnew, hnew']
      simp only [List.map_append, visibility_namesake ho hn, nullability_namesake ho hn,
        staticQualifier_namesake ho hn, fieldFinality_namesake ho hn, told_raiseIf, hwas, hnow, hn.title,
        hn.describe, hvalue]

theorem parameterRules_namesake (ho : old.Namesake old') (hn : new.Namesake new') :
    (parameterRules old' new').map Finding.told = (parameterRules old new).map Finding.told := by
  have hmethod : (new'.containingMethod?.map Decl.describe) = new.containingMethod?.map Decl.describe :=
    map_of_rel hn.containingMethod? fun _ _ h => h.describe
  unfold parameterRules
  rw [ho.asParameter?, hn.asParameter?]
  cases old.asParameter? with
  | none => rfl
  | some was =>
    cases new.asParameter? with
    | none => rfl
    | some now =>
      have hname : (parameterName old' new' was now).map Finding.told =
          (parameterName old new was now).map Finding.told := by
        unfold parameterName
        cases was.name <;> cases now.name <;>
          simp only [told_raiseIf, List.map_nil, ho.describe, hn.describe, hmethod]
      simp only [List.map_append, told_raiseIf, nullability_namesake ho hn, hname, ho.describe,
        hn.describe]

/-! ## Rules that look at the hierarchy -/

theorem classFinality_counterpart (hl : l.Sound) (ho : l.Counterpart old old')
    (hn : l.Counterpart new new') :
    (classFinality old' new').map Finding.told = (classFinality old new).map Finding.told := by
  have hno := ho.namesake hl
  have hnn := hn.namesake hl
  unfold classFinality
  rw [hno.modifiers, hnn.modifiers, hasAccessibleConstructor_counterpart hl ho, hnn.title]
  split
  · split <;> simp only [List.map_cons, List.map_nil, Finding.told, hnn.describe]
  · rfl

theorem removedInterfaces_counterpart (hx : l.Contexts context context') (hl : l.Sound)
    (ho : old.Namesake old') (hn : l.Counterpart new new') :
    (removedInterfaces context' old' new').map Finding.told =
      (removedInterfaces context old new).map Finding.told := by
  have hnn := hn.namesake hl
  unfold removedInterfaces
  rw [List.map_flatMap, List.map_flatMap]
  simp only [told_raiseIf, ho.interfaces, (hx.new.alike hl).implementsInterface hn, hnn.title,
    hnn.describe]

theorem addedInterfaces_counterpart (hx : l.Contexts context context') (hl : l.Sound)
    (ho : l.Counterpart old old') (hn : new.Namesake new') :
    (addedInterfaces context' old' new').map Finding.told =
      (addedInterfaces context old new).map Finding.told := by
  unfold addedInterfaces
  rw [hn.isClosed]
  split
  · rfl
  · rw [List.map_flatMap, List.map_flatMap]
    simp only [told_raiseIf, hn.interfaces, (hx.old.alike hl).implementsInterface ho,
      hn.describe]

theorem superclass_counterpart (hx : l.Contexts context context') (hl : l.Sound)
    (ho : old.Namesake old') (hn : l.Counterpart new new') :
    (superclass context' old' new').map Finding.told =
      (superclass context old new).map Finding.told := by
  have hnn := hn.namesake hl
  unfold superclass
  rw [ho.superclass?, hnn.superclass?]
  cases old.superclass? with
  | none => rfl
  | some was =>
    simp only [told_raiseIf, (hx.new.alike hl).extendsClass hn, hnn.title, hnn.describe]

theorem classRules_counterpart (hx : l.Contexts context context') (hl : l.Sound)
    (ho : l.Counterpart old old') (hn : l.Counterpart new new') :
    (classRules context' old' new').map Finding.told =
      (classRules context old new).map Finding.told := by
  have hno := ho.namesake hl
  have hnn := hn.namesake hl
  have hkind : ∀ {d d' : Decl}, d.Namesake d' →
      Option.Rel (fun c c' : ClassInfo => c'.kind = c.kind) d.asClass? d'.asClass? :=
    fun h => rel_of_map_eq h.classKind?
  unfold classRules
  rcases rel_cases (hkind hno) with ⟨hold, hold'⟩ | ⟨was, was', hold, hold', hwas⟩
  · rw [hold, hold']
  · rcases rel_cases (hkind hnn) with ⟨hnew, hnew'⟩ | ⟨now, now', hnew, hnew', hnow⟩
    · rw [hold, hold', hnew, hnew']
    · rw [hold, hold', hnew, hnew']
      simp only [List.map_append, told_raiseIf, hwas, hnow, hno.modifiers, hnn.modifiers,
        visibility_namesake hno hnn, classFinality_counterpart hl ho hn, staticQualifier_namesake hno hnn,
        removedInterfaces_counterpart hx hl hno hn, addedInterfaces_counterpart hx hl ho hnn,
        superclass_counterpart hx hl hno hn, hnn.title, hnn.describe]

theorem finalityMatters_counterpart (hl : l.Sound) (ho : l.Counterpart old old')
    (hn : l.Counterpart new new') : finalityMatters old' new' = finalityMatters old new := by
  have hno := ho.namesake hl
  have hnn := hn.namesake hl
  have hold := ho.containingClass? hl
  have hnew := hnn.containingClass?
  unfold finalityMatters
  rw [hno.modifiers, hnn.modifiers, hnn.isConstructor]
  generalize old.containingClass? = o at hold ⊢
  generalize old'.containingClass? = o' at hold ⊢
  generalize new.containingClass? = n at hnew ⊢
  generalize new'.containingClass? = n' at hnew ⊢
  cases hold with
  | none => rfl
  | some hold =>
    cases hnew with
    | none => rfl
    | some hnew =>
      simp only [(hold.namesake hl).classKind?, hnew.classKind?,
        hasAccessibleConstructor_counterpart hl hold]

theorem methodFinality_counterpart (hl : l.Sound) (ho : l.Counterpart old old')
    (hn : l.Counterpart new new') :
    (methodFinality old' new').map Finding.told = (methodFinality old new).map Finding.told := by
  have hnn := hn.namesake hl
  unfold methodFinality
  rw [finalityMatters_counterpart hl ho hn, isEffectivelyFinal_namesake (ho.namesake hl),
    isEffectivelyFinal_namesake hnn, hnn.title]
  split
  · split <;> simp only [List.map_cons, List.map_nil, Finding.told, hnn.describe]
  · rfl

theorem withinBounds_counterpart (hv : l.Views v v') (hl : l.Sound) (h : l.Counterpart d d')
    (bounds : List TypeRef) : withinBounds v' d' bounds = withinBounds v d bounds := by
  induction bounds with
  | nil => rfl
  | cons bound rest ih =>
    rw [withinBounds, withinBounds, ih, (hv.alike hl).extendsOrImplements h]

theorem returnType_counterpart (hx : l.Contexts context context') (hl : l.Sound)
    (ho : l.Counterpart old old') (hn : l.Counterpart new new') :
    (returnType context' old' new').map Finding.told =
      (returnType context old new).map Finding.told := by
  have hno := ho.namesake hl
  have hnn := hn.namesake hl
  have hcompatible : ∀ was now, returnTypeCompatible context' old' new' was now =
      returnTypeCompatible context old new was now := by
    intro was now
    have hbounds : ∀ bounds, (context'.oldView.resolve was).bind
        (fun d => withinBounds context'.oldView d bounds) = (context.oldView.resolve was).bind
        fun d => withinBounds context.oldView d bounds :=
      fun bounds => bind_of_rel ((hx.old.alike hl).resolve was) fun _ _ hd =>
        withinBounds_counterpart hx.old hl hd bounds
    unfold returnTypeCompatible
    simp only [hno.typeScope, hnn.typeScope, hbounds]
  unfold returnType
  rw [hno.returnType, hnn.returnType]
  split
  · simp only [told_raiseIf, hcompatible, hnn.title, hnn.describe]
  · rfl

theorem exceptions_counterpart (hx : l.Contexts context context') (hl : l.Sound)
    (ho : l.Counterpart old old') (hn : l.Counterpart new new') :
    (exceptions context' old' new').map Finding.told =
      (exceptions context old new).map Finding.told := by
  have hno := ho.namesake hl
  have hnn := hn.namesake hl
  unfold exceptions
  rcases rel_cases hno.asMethod? with ⟨hold, hold'⟩ | ⟨was, was', hold, hold', hwas⟩
  · rw [hold, hold']
  · rcases rel_cases hnn.asMethod? with ⟨hnew, hnew'⟩ | ⟨now, now', hnew, hnew', hnow⟩
    · rw [hold, hold', hnew, hnew']
    · have hthrown : was'.throws = was.throws := (congrArg MethodInfo.throws hwas :)
      have hthrown' : now'.throws = now.throws := (congrArg MethodInfo.throws hnow :)
      rw [hold, hold', hnew, hnew']
      dsimp only
      rw [isFinalizer_counterpart hl ho, isEnumAccessor_counterpart hl hn, hthrown, hthrown']
      split
      · rfl
      · simp only [List.map_append, List.map_flatMap, told_raiseIf, hnn.title, hnn.describe,
          methodThrows_counterpart hx.new hl hn, methodThrows_counterpart hx.old hl ho]

theorem methodRules_counterpart (hx : l.Contexts context context') (hl : l.Sound)
    (ho : l.Counterpart old old') (hn : l.Counterpart new new') :
    (methodRules context' old' new').map Finding.told =
      (methodRules context old new).map Finding.told := by
  have hno := ho.namesake hl
  have hnn := hn.namesake hl
  have hnull : (if new'.isConstructor then [] else nullability old' new').map Finding.told =
      (if new.isConstructor then [] else nullability old new).map Finding.told := by
    rw [hnn.isConstructor]
    split
    · rfl
    · exact nullability_namesake hno hnn
  unfold methodRules
  simp only [List.map_append, visibility_namesake hno hnn, hnull, methodFinality_counterpart hl ho hn,
    methodAbstract_namesake hno hnn, methodDefault_namesake hno hnn, staticQualifier_namesake hno hnn,
    returnType_counterpart hx hl ho hn, exceptions_counterpart hx hl ho hn]

/-- What is said about the two versions of a declaration is said about their counterparts. -/
theorem findings_counterpart (hx : l.Contexts context context') (hl : l.Sound)
    (ho : l.Counterpart old old') (hn : l.Counterpart new new') :
    (findings context' old' new').map Finding.told = (findings context old new).map Finding.told := by
  have hno := ho.namesake hl
  have hnn := hn.namesake hl
  have hpay := hnn.payload
  unfold findings
  cases hp : new.item.payload <;> cases hp' : new'.item.payload <;> rw [hp, hp'] at hpay <;>
    try cases hpay
  all_goals simp only [List.map_append, deprecation_namesake hno hnn, classRules_counterpart hx hl ho hn,
    methodRules_counterpart hx hl ho hn, fieldRules_namesake hno hnn, parameterRules_namesake hno hnn]

end Matched

end Rules

end ApiSurface
