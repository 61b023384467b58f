import ApiSurface.Check
import ApiSurface.Proofs.Recast
import ApiSurface.Proofs.Tables

/-! # Recast checks

A check of recast surfaces goes through the same motions: it meets the counterparts of the same
declarations in the same order, every rule reaches the verdict that it reached before, and every message
reads the same. So it finds the same, of the counterparts. -/
namespace ApiSurface

variable (r : Recast) {α β : Type}

/-! ## What is said of a declaration -/

namespace Decl

variable (d : Decl)

@[simp] theorem recast_ownerName : (d.recast r).ownerName = d.ownerName := by
  simp only [ownerName, containingClass?_recast]
  cases d.containingClass? with
  | none => rfl
  | some c => simp only [Option.map_some, Option.bind_some, recast_asClass?]

@[simp] theorem recast_parameterList : (d.recast r).parameterList = d.parameterList := by
  simp only [parameterList, parameterTypes_recast]

@[simp] theorem recast_methodSignature (owner : String) :
    methodSignature owner (d.recast r) = methodSignature owner d := by
  simp only [methodSignature, recast_isConstructor, recast_name, recast_parameterList]

@[simp] theorem recast_describe : (d.recast r).describe = d.describe := by
  have hm : ((d.recast r).containingMethod?.map (methodSignature d.ownerName)) =
      d.containingMethod?.map (methodSignature d.ownerName) := by
    simp only [containingMethod?_recast, Option.map_map, Function.comp_def, recast_methodSignature]
  unfold describe
  simp only [recast_ownerName, recast_parameterList, recast_name, hm, recast_item]
  cases hpay : d.item.payload <;> simp only [Item.recast, hpay, Payload.recast] <;> rfl

@[simp] theorem recast_title : (d.recast r).title = d.title := by
  simp only [title, recast_describe]

/-- If different serials stay different, so do the declarations of different loads. -/
theorem isSame_recast (hr : Function.Injective r.serial) (e : Decl) :
    (d.recast r).isSame (e.recast r) = d.isSame e := by
  have hserial : (r.serial d.surface.serial == r.serial e.surface.serial) =
      (d.surface.serial == e.surface.serial) := by
    rw [Bool.eq_iff_iff, beq_iff_eq, beq_iff_eq, hr.eq_iff]
  exact congrArg (· && d.id == e.id) hserial

end Decl

/-! ## Events -/

def Event.recast (r : Recast) : Event → Event
  | .matched old new => .matched (old.recast r) (new.recast r)
  | .removed old place => .removed (old.recast r) (place.map (·.recast r))
  | .added new => .added (new.recast r)

def Filter.Blind (filter : Filter) : Prop := ∀ (r : Recast) (d : Decl), filter (d.recast r) = filter d

namespace Comparison

def Keyed.recast (k : Keyed) (r : Recast) : Keyed := { k with decl := k.decl.recast r }

def Pairing.recast (r : Recast) : Pairing → Pairing
  | .both old new => .both (old.recast r) (new.recast r)
  | .oldOnly old => .oldOnly (old.recast r)
  | .newOnly new => .newOnly (new.recast r)

theorem ofDecl_recast (d : Decl) : MethodKey.ofDecl (d.recast r) = .ofDecl d := by
  simp only [MethodKey.ofDecl, Decl.recast_name, Decl.parameterTypes_recast, Decl.typeScope_recast]

theorem sortedByKey_recast (ds : List Decl) :
    sortedByKey (ds.map (·.recast r)) = (sortedByKey ds).map (·.recast r) := by
  have hkeyed : ((ds.map (·.recast r)).map fun d => ({ key := .ofDecl d, decl := d } : Keyed)) =
      (ds.map fun d => ({ key := .ofDecl d, decl := d } : Keyed)).map (·.recast r) := by
    simp only [List.map_map, Function.comp_def, ofDecl_recast]
    rfl
  unfold sortedByKey
  rw [hkeyed]
  symm
  exact List.map_mergeSort fun a _ b _ => rfl

theorem pairUp_recast (old new : List Keyed) :
    pairUp (old.map (·.recast r)) (new.map (·.recast r)) =
      (pairUp old new).map fun p => (p.1, p.2.recast r) := by
  induction old generalizing new with
  | nil =>
    simp only [List.map_nil, pairUp, List.map_map]
    rfl
  | cons o old ih =>
    have hmatches : ((fun n : Keyed => (o.recast r).decl.signatureMatches n.decl) ∘ (·.recast r)) =
        fun n : Keyed => o.decl.signatureMatches n.decl := by
      funext n
      simp only [Function.comp_apply, Keyed.recast, Decl.signatureMatches_recast_left,
        Decl.signatureMatches_recast_right]
    simp only [List.map_cons, pairUp, List.find?_map, List.eraseP_map, hmatches, ih]
    cases new.find? fun n => o.decl.signatureMatches n.decl <;> rfl

theorem events_recast (newClass : Decl) (pairing : Pairing) :
    (pairing.recast r).events (newClass.recast r) = (pairing.events newClass).map (.recast r) := by
  cases pairing with
  | both old new =>
    simp only [Pairing.recast, Pairing.events, Decl.parameters_recast, List.zip_map, List.map_map,
      List.map_cons]
    rfl
  | oldOnly old => rfl
  | newOnly new => rfl

theorem methodEvents_recast (newClass : Decl) (old new : List Decl) :
    methodEvents (newClass.recast r) (old.map (·.recast r)) (new.map (·.recast r)) =
      (methodEvents newClass old new).map (.recast r) := by
  have hsort : ∀ pairs : List (MethodKey × Pairing),
      (pairs.map fun p => (p.1, p.2.recast r)).mergeSort (fun a b => (a.1.order b.1).isLE) =
        (pairs.mergeSort fun a b => (a.1.order b.1).isLE).map fun p => (p.1, p.2.recast r) := by
    intro pairs
    symm
    exact List.map_mergeSort fun a _ b _ => rfl
  unfold methodEvents
  simp only [sortedByKey_recast, pairUp_recast, hsort, List.flatMap_map, List.map_flatMap, events_recast]

/-- The second table has the counterparts of what the first one has. -/
def Recasts (table table' : ByName) : Prop :=
  ∀ name : String, table'[name]? = table[name]?.map fun d => d.recast r

theorem firstByName_recast (ds : List Decl) :
    Recasts r (firstByName ds) (firstByName (ds.map (·.recast r))) := by
  intro name
  simp only [getElem?_firstByName, List.find?_map, Function.comp_def, Decl.recast_name]

theorem lastByName_recast (ds : List Decl) :
    Recasts r (lastByName ds) (lastByName (ds.map (·.recast r))) := by
  intro name
  simp only [getElem?_lastByName, ← List.map_reverse, List.find?_map, Function.comp_def,
    Decl.recast_name]

theorem Recasts.mem_keys {r : Recast} {table table' : ByName} (h : Recasts r table table') (name : String) :
    name ∈ table'.keys ↔ name ∈ table.keys := by
  rw [mem_keys_iff, mem_keys_iff, h]
  cases table[name]? <;> simp

theorem Recasts.contains {r : Recast} {table table' : ByName} (h : Recasts r table table') (name : String) :
    table'.contains name = table.contains name := by
  rw [Std.TreeMap.contains_eq_isSome_getElem?, Std.TreeMap.contains_eq_isSome_getElem?, h,
    Option.isSome_map]

theorem fieldEvents_recast (newClass : Decl) (old new : List Decl) :
    fieldEvents (newClass.recast r) (old.map (·.recast r)) (new.map (·.recast r)) =
      (fieldEvents newClass old new).map (.recast r) := by
  have hold := firstByName_recast r old
  have hnew := firstByName_recast r new
  unfold fieldEvents
  simp only [unionNames_congr hold.mem_keys hnew.mem_keys, List.map_flatMap]
  congr 1
  funext name
  rw [hold name, hnew name]
  cases (firstByName old)[name]? <;> cases (firstByName new)[name]? <;> rfl

section Filtered

variable {r} {filter : Filter}

theorem filter_recast (hf : filter.Blind) (ds : List Decl) :
    (ds.map (·.recast r)).filter filter = (ds.filter filter).map (·.recast r) := by
  rw [List.filter_map]
  congr 2
  funext d
  exact hf r d

theorem memberEvents_recast (hf : filter.Blind) (old new : Decl) :
    memberEvents filter (old.recast r) (new.recast r) =
      (memberEvents filter old new).map (.recast r) := by
  simp only [memberEvents, Decl.constructors_recast, Decl.methods_recast, Decl.fields_recast,
    filter_recast hf, methodEvents_recast, fieldEvents_recast, List.map_append]

theorem Recasts.isWithinUnmatched {table table' : ByName} (h : Recasts r table table') (d : Decl) :
    isWithinUnmatched (d.recast r) table' = isWithinUnmatched d table := by
  simp only [Comparison.isWithinUnmatched, Decl.enclosingClasses, Decl.selfAndClasses_recast,
    ← List.map_tail, List.any_map, Function.comp_def, Decl.recast_name, h.contains]

theorem classEvents_recast (hf : filter.Blind) (old new : Decl) :
    classEvents filter (old.recast r) (new.recast r) = (classEvents filter old new).map (.recast r) := by
  have hold := lastByName_recast r old.classes
  have hnew := lastByName_recast r (new.classes.filter filter)
  unfold classEvents
  simp only [Decl.classes_recast, filter_recast hf, unionNames_congr hold.mem_keys hnew.mem_keys,
    List.map_flatMap]
  congr 1
  funext name
  rw [hold name, hnew name]
  cases (lastByName old.classes)[name]? with
  | none =>
    cases (lastByName (new.classes.filter filter))[name]? with
    | none => rfl
    | some n =>
      simp only [Option.map_none, Option.map_some, hold.isWithinUnmatched]
      split <;> rfl
  | some o =>
    cases (lastByName (new.classes.filter filter))[name]? with
    | none =>
      simp only [Option.map_none, Option.map_some, hnew.isWithinUnmatched]
      split <;> rfl
    | some n =>
      simp only [Option.map_some, memberEvents_recast hf]
      rfl

end Filtered

end Comparison

open Comparison in
/-- The recast surfaces are compared event by event like the ones before. -/
theorem Surface.compare_recast {filter : Filter} (hf : filter.Blind) (old new : Surface) :
    (old.recast r).compare (new.recast r) filter = (old.compare new filter).map (.recast r) := by
  have hnames : ∀ s : Surface, (s.recast r).packageDecls.map Decl.name = s.packageDecls.map Decl.name := by
    intro s
    exact (congrArg (List.map Decl.name) (s.decls_recast r s.packages.values)).trans
      (map_name_recast r s.packageDecls)
  unfold Surface.compare
  simp only [hnames, Surface.findPackage?_recast, List.map_flatMap]
  congr 1
  funext name
  have hnew : ((new.findPackage? name).map (·.recast r)).filter filter =
      ((new.findPackage? name).filter filter).map (·.recast r) := by
    cases new.findPackage? name with
    | none => rfl
    | some p =>
      simp only [Option.map_some, Option.filter_some, hf r p]
      split <;> rfl
  rw [hnew]
  cases old.findPackage? name with
  | none => cases (new.findPackage? name).filter filter <;> rfl
  | some o =>
    cases (new.findPackage? name).filter filter with
    | none => rfl
    | some n =>
      simp only [Option.map_some, classEvents_recast hf]
      rfl

/-! ## Findings -/

def Finding.recast (finding : Finding) (r : Recast) : Finding :=
  { finding with subject := finding.subject.recast r }

@[simp] theorem raiseIf_recast (condition : Bool) (kind : IssueKind) (subject : Decl) (message : String) :
    raiseIf condition kind (subject.recast r) message =
      (raiseIf condition kind subject message).map (·.recast r) := by
  unfold raiseIf
  split <;> rfl

def RuleContext.recast (context : RuleContext) (r : Recast) : RuleContext :=
  { context with oldView := context.oldView.recast r, newView := context.newView.recast r }

namespace Rules

variable (context : RuleContext) (view : View) (d : Decl)

/-! ### What single declarations answer -/

theorem declaredType?_recast : declaredType? (d.recast r) = declaredType? d := by
  rcases d with ⟨s, id, ⟨_, _, _, _, _, payload⟩⟩
  cases payload <;> rfl

theorem hasAccessibleConstructor_recast :
    hasAccessibleConstructor (d.recast r) = hasAccessibleConstructor d := by
  simp only [hasAccessibleConstructor, Decl.constructors_recast, List.any_map, Function.comp_def,
    Decl.recast_modifiers, Modifiers.recast_visibility, Decl.isEffectively_hidden_recast]

theorem isEffectivelyFinal_recast : isEffectivelyFinal (d.recast r) = isEffectivelyFinal d := by
  simp only [isEffectivelyFinal, Decl.containingClass?_recast, Option.any_map, Decl.recast_modifiers,
    Modifiers.recast_isFinal, Modifiers.recast_isSealed]

theorem ownerKind_recast :
    ((d.recast r).containingClass?.bind Decl.classKind?) = d.containingClass?.bind Decl.classKind? := by
  simp only [Decl.containingClass?_recast, Option.bind_map, Function.comp_def, Decl.recast_classKind?]

theorem isEnumAccessor_recast : isEnumAccessor (d.recast r) = isEnumAccessor d := by
  simp only [isEnumAccessor, ownerKind_recast, Decl.asMethod?_recast, Decl.parameters_recast,
    List.isEmpty_map, List.length_map, Decl.parameterTypes_recast]
  cases d.asMethod? <;> rfl

theorem isFinalizer_recast : isFinalizer (d.recast r) = isFinalizer d := by
  simp only [isFinalizer, Decl.asMethod?_recast, Decl.parameters_recast, List.isEmpty_map]
  cases d.asMethod? <;> rfl

theorem throwsAs_recast (name : String) : throwsAs (view.recast r) name = throwsAs view name := by
  funext type
  simp only [throwsAs, View.resolve_recast]
  cases view.resolve type <;> simp only [Option.map_none, Option.map_some, Option.bind_none, Option.bind_some,
    View.extendsClass_recast]

theorem methodThrows_recast (name : String) :
    methodThrows (view.recast r) (d.recast r) name = methodThrows view d name := by
  simp only [methodThrows, Decl.asMethod?_recast, throwsAs_recast]
  cases d.asMethod? <;> rfl

theorem overriddenClosure_recast (bound : Nat) (seen : List ItemId) (stack : List Decl) :
    overriddenClosure bound seen (stack.map (·.recast r)) =
      (overriddenClosure bound seen stack).map (·.recast r) := by
  induction bound generalizing seen stack with
  | zero => rfl
  | succ bound ih =>
    simp only [overriddenClosure, List.dropWhile_map, Function.comp_def, Decl.recast_id]
    cases stack.dropWhile fun d => seen.contains d.id with
    | nil => rfl
    | cons current rest =>
      simp only [List.map_cons, Decl.overridden_recast, Decl.recast_id, ← List.map_reverse,
        ← List.map_append, ih]

theorem overridesStub_recast : overridesStub (d.recast r) = overridesStub d := by
  have hsize : (d.recast r).surface.size = d.surface.size := Array.size_map ..
  simp only [overridesStub, hsize, Decl.overridden_recast, ← List.map_reverse,
    overriddenClosure_recast, List.any_map, Function.comp_def, Decl.recast_isEmitted]

namespace Matched

variable (old new : Decl)

/-! ### Rules on matched pairs -/

theorem visibility_recast : visibility (old.recast r) (new.recast r) =
    (visibility old new).map (·.recast r) := by
  simp only [visibility, Decl.recast_modifiers, Modifiers.recast_visibility, Decl.recast_title,
    raiseIf_recast]

theorem nullabilityRole_recast : nullabilityRole (d.recast r) = nullabilityRole d := by
  rcases d with ⟨s, id, ⟨_, _, _, _, _, payload⟩⟩
  cases payload <;> rfl

theorem nullabilityBreaks_recast (was : Nullability) :
    nullabilityBreaks was (d.recast r) = nullabilityBreaks was d := by
  rcases d with ⟨s, id, ⟨_, _, _, _, _, payload⟩⟩
  cases payload <;> rfl

theorem nullability_recast : nullability (old.recast r) (new.recast r) =
    (nullability old new).map (·.recast r) := by
  simp only [nullability, Decl.recast_modifiers, Modifiers.recast_nullability, declaredType?_recast,
    nullabilityRole_recast, nullabilityBreaks_recast, Decl.recast_describe, raiseIf_recast]
  cases old.modifiers.nullability <;> cases new.modifiers.nullability <;> rfl

theorem staticQualifier_recast : staticQualifier (old.recast r) (new.recast r) =
    (staticQualifier old new).map (·.recast r) := by
  simp only [staticQualifier, Decl.recast_modifiers, Modifiers.recast_isStatic, Decl.recast_title,
    raiseIf_recast]

theorem deprecation_recast : deprecation (old.recast r) (new.recast r) =
    (deprecation old new).map (·.recast r) := by
  simp only [deprecation, Decl.recast_flags, ItemFlags.recast_deprecated, Decl.recast_title,
    raiseIf_recast]

theorem classFinality_recast : classFinality (old.recast r) (new.recast r) =
    (classFinality old new).map (·.recast r) := by
  simp only [classFinality, Decl.recast_modifiers, Modifiers.recast_isFinal, Decl.recast_title,
    hasAccessibleConstructor_recast]
  split
  · split <;> rfl
  · rfl

theorem removedInterfaces_recast :
    removedInterfaces (context.recast r) (old.recast r) (new.recast r) =
      (removedInterfaces context old new).map (·.recast r) := by
  simp only [removedInterfaces, RuleContext.recast, Decl.recast_interfaces,
    View.implementsInterface_recast, Decl.recast_title, raiseIf_recast, List.map_flatMap]

theorem addedInterfaces_recast : addedInterfaces (context.recast r) (old.recast r) (new.recast r) =
    (addedInterfaces context old new).map (·.recast r) := by
  simp only [addedInterfaces, RuleContext.recast, Decl.recast_interfaces, Decl.recast_isClosed,
    View.implementsInterface_recast, Decl.recast_describe, raiseIf_recast]
  split
  · rfl
  · rw [List.map_flatMap]

theorem superclass_recast : superclass (context.recast r) (old.recast r) (new.recast r) =
    (superclass context old new).map (·.recast r) := by
  simp only [superclass, RuleContext.recast, Decl.recast_superclass?, View.extendsClass_recast,
    Decl.recast_title, raiseIf_recast]
  cases old.superclass? <;> rfl

theorem classRules_recast : classRules (context.recast r) (old.recast r) (new.recast r) =
    (classRules context old new).map (·.recast r) := by
  simp only [classRules, Decl.recast_asClass?, Decl.recast_title, raiseIf_recast, visibility_recast,
    classFinality_recast, staticQualifier_recast, removedInterfaces_recast, addedInterfaces_recast,
    superclass_recast, Decl.recast_modifiers, Modifiers.recast_isAbstract, ← List.map_append]
  cases old.asClass? <;> cases new.asClass? <;> rfl

theorem finalityMatters_recast :
    finalityMatters (old.recast r) (new.recast r) = finalityMatters old new := by
  simp only [finalityMatters, Decl.recast_isConstructor, Decl.recast_modifiers,
    Modifiers.recast_isStatic, Decl.containingClass?_recast]
  cases old.containingClass? <;> cases new.containingClass? <;>
    simp only [Option.map_none, Option.map_some, Decl.recast_classKind?, hasAccessibleConstructor_recast]

theorem methodFinality_recast : methodFinality (old.recast r) (new.recast r) =
    (methodFinality old new).map (·.recast r) := by
  simp only [methodFinality, finalityMatters_recast, isEffectivelyFinal_recast, Decl.recast_title]
  split
  · cases isEffectivelyFinal old <;> cases isEffectivelyFinal new <;> rfl
  · rfl

theorem isInterfaceMember_recast : isInterfaceMember (d.recast r) = isInterfaceMember d := by
  rw [isInterfaceMember, ownerKind_recast, isInterfaceMember]

theorem methodAbstract_recast : methodAbstract (old.recast r) (new.recast r) =
    (methodAbstract old new).map (·.recast r) := by
  have hinherited : ((old.recast r).asMethod?.any (·.isInherited)) = old.asMethod?.any (·.isInherited) := by
    rw [Decl.asMethod?_recast, Option.any_map]
    rfl
  simp only [methodAbstract, isInterfaceMember_recast, Decl.recast_modifiers,
    Modifiers.recast_isAbstract, hinherited, Decl.recast_surface, Surface.recast_isPartial,
    Decl.recast_title, raiseIf_recast]

theorem methodDefault_recast : methodDefault (old.recast r) (new.recast r) =
    (methodDefault old new).map (·.recast r) := by
  simp only [methodDefault, Decl.recast_modifiers, Modifiers.recast_isDefault,
    Modifiers.recast_isStatic, Decl.recast_title, raiseIf_recast]

theorem withinBounds_recast (bounds : List TypeRef) :
    withinBounds (view.recast r) (d.recast r) bounds = withinBounds view d bounds := by
  induction bounds with
  | nil => rfl
  | cons bound rest ih => simp only [withinBounds, View.extendsOrImplements_recast, ih]

theorem returnTypeCompatible_recast (was now : TypeRef) :
    returnTypeCompatible (context.recast r) (old.recast r) (new.recast r) was now =
      returnTypeCompatible context old new was now := by
  have hbounds : ∀ bounds : List TypeRef,
      (((context.oldView.resolve was).map (·.recast r)).bind fun d =>
        withinBounds (context.oldView.recast r) d bounds) =
      (context.oldView.resolve was).bind fun d => withinBounds context.oldView d bounds := by
    intro bounds
    simp only [Option.bind_map, Function.comp_def, withinBounds_recast]
  simp only [returnTypeCompatible, RuleContext.recast, Decl.typeScope_recast, View.resolve_recast,
    hbounds]

theorem returnType_recast : returnType (context.recast r) (old.recast r) (new.recast r) =
    (returnType context old new).map (·.recast r) := by
  have hreturn : ∀ d : Decl, ((d.recast r).asMethod?.bind (·.returnType)) =
      d.asMethod?.bind (·.returnType) := by
    intro d
    rw [Decl.asMethod?_recast, Option.bind_map]
    rfl
  simp only [returnType, hreturn, returnTypeCompatible_recast, Decl.recast_title, raiseIf_recast]
  cases old.asMethod?.bind (·.returnType) <;> cases new.asMethod?.bind (·.returnType) <;> rfl

theorem exceptions_recast : exceptions (context.recast r) (old.recast r) (new.recast r) =
    (exceptions context old new).map (·.recast r) := by
  have hold : (context.recast r).oldView = context.oldView.recast r := rfl
  have hnew : (context.recast r).newView = context.newView.recast r := rfl
  simp only [exceptions, hold, hnew, Decl.asMethod?_recast, isFinalizer_recast, isEnumAccessor_recast,
    methodThrows_recast, Decl.recast_title, raiseIf_recast]
  cases old.asMethod? with
  | none => rfl
  | some was =>
    cases new.asMethod? with
    | none => rfl
    | some now =>
      simp only [Option.map_some]
      split
      · rfl
      · rw [List.map_append, List.map_flatMap, List.map_flatMap]
        rfl

theorem methodRules_recast : methodRules (context.recast r) (old.recast r) (new.recast r) =
    (methodRules context old new).map (·.recast r) := by
  have hnull : (if new.isConstructor then [] else (nullability old new).map (·.recast r)) =
      (if new.isConstructor then [] else nullability old new).map (·.recast r) := by
    split <;> rfl
  simp only [methodRules, visibility_recast, Decl.recast_isConstructor, nullability_recast, hnull,
    methodFinality_recast, methodAbstract_recast, methodDefault_recast, staticQualifier_recast,
    returnType_recast, exceptions_recast, List.map_append]

theorem fieldFinality_recast : fieldFinality (old.recast r) (new.recast r) =
    (fieldFinality old new).map (·.recast r) := by
  simp only [fieldFinality, Decl.recast_modifiers, Modifiers.recast_isFinal, Decl.recast_title,
    raiseIf_recast]

theorem constantValue_recast (was now : FieldInfo) :
    constantValue (new.recast r) (was.recast r) (now.recast r) =
      (constantValue new was now).map (·.recast r) := by
  have hwas : (was.recast r).value = was.value := rfl
  have hnow : (now.recast r).value = now.value := rfl
  simp only [constantValue, hwas, hnow, Decl.recast_title, raiseIf_recast]
  cases was.value <;> cases now.value <;> rfl

theorem fieldRules_recast : fieldRules (old.recast r) (new.recast r) =
    (fieldRules old new).map (·.recast r) := by
  have htype : ∀ info : FieldInfo, (info.recast r).type = info.type := fun _ => rfl
  simp only [fieldRules, Decl.asField?_recast, visibility_recast, nullability_recast,
    staticQualifier_recast, fieldFinality_recast]
  cases old.asField? with
  | none => rfl
  | some was =>
    cases new.asField? with
    | none => rfl
    | some now =>
      simp only [Option.map_some, htype, constantValue_recast, Decl.recast_title, raiseIf_recast,
        List.map_append]

theorem parameterName_recast (was now : ParameterInfo) :
    parameterName (old.recast r) (new.recast r) was now =
      (parameterName old new was now).map (·.recast r) := by
  simp only [parameterName, Decl.recast_describe, Decl.containingMethod?_recast, Option.map_map,
    Function.comp_def, raiseIf_recast]
  cases was.name <;> cases now.name <;> rfl

theorem parameterRules_recast : parameterRules (old.recast r) (new.recast r) =
    (parameterRules old new).map (·.recast r) := by
  simp only [parameterRules, Decl.recast_asParameter?, nullability_recast, parameterName_recast,
    Decl.recast_describe, raiseIf_recast, ← List.map_append]
  cases old.asParameter? <;> cases new.asParameter? <;> rfl

/-- What is found about the two versions of a declaration is found about their counterparts. -/
theorem findings_recast : findings (context.recast r) (old.recast r) (new.recast r) =
    (findings context old new).map (·.recast r) := by
  simp only [findings, deprecation_recast, classRules_recast, methodRules_recast, fieldRules_recast,
    parameterRules_recast, ← List.map_append, Decl.recast_item]
  cases hpay : new.item.payload <;> simp only [Item.recast, hpay, Payload.recast]

end Matched

namespace Presence

variable {r context}

/-! ### Rules on additions and removals -/

theorem inheritedObligation_recast (hr : Function.Injective r.serial) (owner method : Decl) :
    inheritedObligation (context.recast r) (owner.recast r) (method.recast r) =
      (inheritedObligation context owner method).map (·.recast r) := by
  have hold : (context.recast r).oldView = context.oldView.recast r := rfl
  simp only [inheritedObligation, hold, Decl.recast_name, View.findClass?_recast]
  cases context.oldView.findClass? owner.name with
  | none => rfl
  | some d =>
    simp only [Option.map_some, Option.bind_some,
      View.findMethod?_recast r context.oldView d method true true fun _ => rfl]
    cases context.oldView.findMethod? d method true true with
    | none => rfl
    | some found =>
      simp only [Option.map_some, Option.filter_some, Decl.isSame_recast r _ hr, Decl.recast_modifiers,
        Modifiers.recast_isAbstract]
      split <;> rfl

theorem addedMethodKind_recast (hr : Function.Injective r.serial) (method : Decl) :
    addedMethodKind (context.recast r) (method.recast r) = addedMethodKind context method := by
  have hpartial : (context.recast r).oldView.primary.isPartial = context.oldView.primary.isPartial := rfl
  simp only [addedMethodKind, hpartial, Decl.asMethod?_recast, Decl.containingClass?_recast,
    overridesStub_recast, isEnumAccessor_recast, Decl.recast_modifiers, Modifiers.recast_isAbstract]
  cases method.asMethod? with
  | none => rfl
  | some info =>
    cases method.containingClass? with
    | none => rfl
    | some owner =>
      simp only [Option.map_some, inheritedObligation_recast hr, Option.isSome_map, Decl.recast_isClosed]
      rfl

theorem added_recast (hr : Function.Injective r.serial) (new : Decl) :
    added (context.recast r) (new.recast r) = (added context new).map (·.recast r) := by
  have hkind : addedKind (context.recast r) (new.recast r) = addedKind context new := by
    simp only [addedKind, addedMethodKind_recast hr, Decl.recast_item]
    cases hpay : new.item.payload <;> simp only [Item.recast, hpay, Payload.recast]
  simp only [added, hkind, Decl.recast_flags, ItemFlags.recast_declaredHidden, Decl.recast_describe]
  split
  · rfl
  · cases addedKind context new <;> rfl

section Filtered

variable (hf : context.filter.Blind)

include hf

theorem isStillInherited_recast (old : Decl) (place : Option Decl) :
    isStillInherited (context.recast r) (old.recast r) (place.map (·.recast r)) =
      isStillInherited context old place := by
  have hnew : (context.recast r).newView = context.newView.recast r := rfl
  have hfilter : (context.recast r).filter = context.filter := rfl
  cases place with
  | none => rfl
  | some d =>
    simp only [isStillInherited, hnew, hfilter, Option.map_some, Decl.asField?_recast]
    cases old.asField? with
    | none =>
      simp only [Option.map_none, View.findMethod?_recast r context.newView d old true true (hf r),
        Option.isSome_map]
    | some info =>
      have hname : (info.recast r).name = info.name := rfl
      simp only [Option.map_some, hname,
        View.findField?_recast r context.newView d info.name true true (hf r), Option.isSome_map]

theorem removed_recast (old : Decl) (place : Option Decl) :
    removed (context.recast r) (old.recast r) (place.map (·.recast r)) =
      (removed context old place).map (·.recast r) := by
  have hfilter : (context.recast r).filter (old.recast r) = context.filter old := hf r old
  have hkind : removedKind (context.recast r) (old.recast r) (place.map (·.recast r)) =
      removedKind context old place := by
    simp only [removedKind, isStillInherited_recast hf, Decl.recast_item]
    cases hpay : old.item.payload <;> simp only [Item.recast, hpay, Payload.recast]
  simp only [removed, hkind, hfilter, Decl.recast_isEmitted, Decl.isEffectively_hidden_recast,
    Decl.isEffectively_deprecated_recast, Decl.recast_describe]
  split
  · rfl
  · cases removedKind context old place <;> rfl

end Filtered

end Presence

end Rules

namespace RuleContext

variable {r} {context : RuleContext}

theorem findings_recast (hf : context.filter.Blind) (hr : Function.Injective r.serial) (event : Event) :
    (context.recast r).findings (event.recast r) = (context.findings event).map (·.recast r) := by
  cases event with
  | matched old new => exact Rules.Matched.findings_recast r context old new
  | removed old place => exact Rules.Presence.removed_recast hf old place
  | added new => exact Rules.Presence.added_recast hr new

/-- A check of the recast surfaces finds the same, of the counterparts. -/
theorem allFindings_recast (hf : context.filter.Blind) (hr : Function.Injective r.serial) :
    (context.recast r).allFindings = context.allFindings.map (·.recast r) := by
  have hevents : (context.recast r).oldView.primary.compare (context.recast r).newView.primary
      (context.recast r).filter = _ :=
    Surface.compare_recast r hf context.oldView.primary context.newView.primary
  rw [allFindings, hevents, List.flatMap_map, allFindings, List.map_flatMap]
  simp only [findings_recast hf hr]

end RuleContext

end ApiSurface
