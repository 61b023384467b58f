import ApiSurface.Check
import ApiSurface.Draft.Finish
import ApiSurface.Proofs.Signature

/-! # Data beside the point

A surface holds some data that nothing depends on: its location, the facets `native`, `functional`,
`operator`, `infix` and `inline`, the flags for documentation, the properties of methods, and the mark of
enum constants. A recast replaces all of it, and labels the surface anew. Whatever is asked of a
declaration, and every walk of the hierarchy, is answered alike in the recast surface: `d.recast r` is the
counterpart of `d` there. -/
namespace ApiSurface

/-- How to replace the data on which nothing depends. -/
structure Recast where
  serial : Nat → Nat := id
  location : String → String := id
  /-- Applied to each of the facets that do not count. -/
  facet : Bool → Bool := id
  facet_false : facet false = false := by rfl
  docOnly : Bool → Bool := id
  docOnly_false : docOnly false = false := by rfl
  property : Option String → Option String := id
  isEnumConstant : Bool → Bool := id

/-! ## What is replaced -/

/-- The modifiers with other facets where they do not count. -/
def Modifiers.recast (m : Modifiers) (r : Recast) : Modifiers :=
  { m with
    isNative := r.facet m.isNative
    isFunctional := r.facet m.isFunctional
    isOperator := r.facet m.isOperator
    isInfix := r.facet m.isInfix
    isInline := r.facet m.isInline }

def ItemFlags.recast (flags : ItemFlags) (r : Recast) : ItemFlags :=
  { flags with docOnly := r.docOnly flags.docOnly }

def MethodInfo.recast (info : MethodInfo) (r : Recast) : MethodInfo :=
  { info with property := r.property info.property }

def FieldInfo.recast (info : FieldInfo) (r : Recast) : FieldInfo :=
  { info with isEnumConstant := r.isEnumConstant info.isEnumConstant }

def Payload.recast (r : Recast) : Payload → Payload
  | .method info => .method (info.recast r)
  | .constructor info => .constructor (info.recast r)
  | .field info => .field (info.recast r)
  | other => other

def Item.recast (item : Item) (r : Recast) : Item :=
  { item with
    modifiers := item.modifiers.recast r
    flags := item.flags.recast r
    payload := item.payload.recast r }

/-- The surface with all data replaced that does not count. -/
def Surface.recast (s : Surface) (r : Recast) : Surface :=
  { s with
    serial := r.serial s.serial
    location := r.location s.location
    items := s.items.map (·.recast r) }

def Decl.recast (d : Decl) (r : Recast) : Decl :=
  { surface := d.surface.recast r, id := d.id, item := d.item.recast r }

def View.recast (v : View) (r : Recast) : View :=
  { primary := v.primary.recast r, fallbacks := v.fallbacks.map (·.recast r) }

variable (r : Recast)

/-! ## What stays -/

namespace Modifiers

variable (m : Modifiers)

@[simp] theorem recast_visibility : (m.recast r).visibility = m.visibility := rfl
@[simp] theorem recast_isStatic : (m.recast r).isStatic = m.isStatic := rfl
@[simp] theorem recast_isFinal : (m.recast r).isFinal = m.isFinal := rfl
@[simp] theorem recast_isAbstract : (m.recast r).isAbstract = m.isAbstract := rfl
@[simp] theorem recast_isDefault : (m.recast r).isDefault = m.isDefault := rfl
@[simp] theorem recast_isSealed : (m.recast r).isSealed = m.isSealed := rfl
@[simp] theorem recast_nullability : (m.recast r).nullability = m.nullability := rfl

@[simp] theorem equivalent_recast (n : Modifiers) :
    (m.recast r).equivalent (n.recast r) = m.equivalent n := rfl

end Modifiers

namespace ItemFlags

variable (flags : ItemFlags)

@[simp] theorem recast_hidden : (flags.recast r).hidden = flags.hidden := rfl
@[simp] theorem recast_deprecated : (flags.recast r).deprecated = flags.deprecated := rfl
@[simp] theorem recast_declaredHidden : (flags.recast r).declaredHidden = flags.declaredHidden := rfl

theorem get_recast {flag : Flag} (h : flag ≠ .docOnly) : (flags.recast r).get flag = flags.get flag := by
  cases flag with
  | docOnly => exact (h rfl).elim
  | _ => rfl

end ItemFlags

namespace Surface

variable (s : Surface)

@[simp] theorem recast_isPartial : (s.recast r).isPartial = s.isPartial := rfl
@[simp] theorem recast_classes : (s.recast r).classes = s.classes := rfl

theorem decl?_recast (id : ItemId) :
    (s.recast r).decl? id = (s.decl? id).map (·.recast r) := by
  change (s.items.map (·.recast r))[id.index]?.map _ = _
  rw [Array.getElem?_map, Option.map_map, decl?, Option.map_map]
  rfl

theorem decls_recast (ids : List ItemId) :
    (s.recast r).decls ids = (s.decls ids).map (·.recast r) := by
  simp only [decls, List.map_filterMap, ← decl?_recast]

theorem bind_decl?_recast (o : Option ItemId) :
    o.bind (s.recast r).decl? = (o.bind s.decl?).map (·.recast r) := by
  cases o with
  | none => rfl
  | some id => exact decl?_recast r s id

theorem findPackage?_recast (name : String) : (s.recast r).findPackage? name =
    (s.findPackage? name).map (·.recast r) :=
  bind_decl?_recast r s _

theorem findClass?_recast (name : String) : (s.recast r).findClass? name =
    (s.findClass? name).map (·.recast r) :=
  bind_decl?_recast r s _

theorem classDecls_recast : (s.recast r).classDecls =
    s.classDecls.map (·.recast r) :=
  decls_recast r s _

end Surface

namespace Decl

variable (d : Decl)

@[simp] theorem recast_surface : (d.recast r).surface = d.surface.recast r := rfl
@[simp] theorem recast_id : (d.recast r).id = d.id := rfl
@[simp] theorem recast_item : (d.recast r).item = d.item.recast r := rfl
@[simp] theorem recast_modifiers : (d.recast r).modifiers = d.modifiers.recast r := rfl
@[simp] theorem recast_flags : (d.recast r).flags = d.flags.recast r := rfl
@[simp] theorem recast_isEmitted : (d.recast r).isEmitted = d.isEmitted := rfl

@[simp] theorem recast_asPackage? : (d.recast r).asPackage? = d.asPackage? := by
  rcases d with ⟨s, id, ⟨_, _, _, _, _, payload⟩⟩
  cases payload <;> rfl

@[simp] theorem recast_asClass? : (d.recast r).asClass? = d.asClass? := by
  rcases d with ⟨s, id, ⟨_, _, _, _, _, payload⟩⟩
  cases payload <;> rfl

theorem asMethod?_recast : (d.recast r).asMethod? = d.asMethod?.map (·.recast r) := by
  rcases d with ⟨s, id, ⟨_, _, _, _, _, payload⟩⟩
  cases payload <;> rfl

theorem asField?_recast : (d.recast r).asField? = d.asField?.map (·.recast r) := by
  rcases d with ⟨s, id, ⟨_, _, _, _, _, payload⟩⟩
  cases payload <;> rfl

@[simp] theorem recast_asParameter? : (d.recast r).asParameter? = d.asParameter? := by
  rcases d with ⟨s, id, ⟨_, _, _, _, _, payload⟩⟩
  cases payload <;> rfl

@[simp] theorem recast_name : (d.recast r).name = d.name := by
  rcases d with ⟨s, id, ⟨_, _, _, _, _, payload⟩⟩
  cases payload <;> rfl

@[simp] theorem recast_isConstructor : (d.recast r).isConstructor = d.isConstructor := by
  rcases d with ⟨s, id, ⟨_, _, _, _, _, payload⟩⟩
  cases payload <;> rfl

@[simp] theorem recast_ownTypeParameters : (d.recast r).ownTypeParameters = d.ownTypeParameters := by
  rcases d with ⟨s, id, ⟨_, _, _, _, _, payload⟩⟩
  cases payload <;> rfl

@[simp] theorem recast_classKind? : (d.recast r).classKind? = d.classKind? := by
  simp only [classKind?, recast_asClass?]

@[simp] theorem recast_isClosed : (d.recast r).isClosed = d.isClosed := by
  simp only [isClosed, recast_classKind?, recast_modifiers, Modifiers.recast_isSealed]

@[simp] theorem recast_superclass? : (d.recast r).superclass? = d.superclass? := by
  simp only [superclass?, recast_asClass?]

@[simp] theorem recast_interfaces : (d.recast r).interfaces = d.interfaces := by
  simp only [interfaces, recast_asClass?]

theorem parent?_recast : (d.recast r).parent? = d.parent?.map (·.recast r) :=
  Surface.bind_decl?_recast r d.surface d.item.parent

theorem containingClass?_recast :
    (d.recast r).containingClass? = d.containingClass?.map (·.recast r) := by
  have hparent := d.parent?_recast r
  unfold containingClass?
  rw [hparent, recast_item]
  cases hpay : d.item.payload with
  | package info =>
    simp only [Item.recast, hpay, Payload.recast]
    rfl
  | ofClass info =>
    simp only [Item.recast, hpay, Payload.recast]
    exact Surface.bind_decl?_recast r d.surface info.outer
  | parameter info =>
    simp only [Item.recast, hpay, Payload.recast]
    cases d.parent? with
    | none => rfl
    | some p => exact p.parent?_recast r
  | _ => simp only [Item.recast, hpay, Payload.recast]

theorem containingMethod?_recast :
    (d.recast r).containingMethod? = d.containingMethod?.map (·.recast r) := by
  have hparent := d.parent?_recast r
  unfold containingMethod?
  rw [hparent, recast_item]
  cases hpay : d.item.payload <;> simp only [Item.recast, hpay, Payload.recast] <;> rfl

/-- A walk takes the same steps in the recast surface if each of its steps does. -/
theorem walk_recast {next : Decl → Option Decl}
    (h : ∀ d : Decl, next (d.recast r) = (next d).map (·.recast r)) (bound : Nat) :
    walk next bound (d.recast r) = (walk next bound d).map (·.recast r) := by
  induction bound generalizing d with
  | zero => rfl
  | succ bound ih =>
    simp only [walk, h, List.map_cons]
    cases next d with
    | none => rfl
    | some d' => simp only [Option.map_some, ih]

theorem lineage_recast : (d.recast r).lineage = d.lineage.map (·.recast r) :=
  walk_recast r d (fun d => d.parent?_recast r) _

theorem selfAndClasses_recast : (d.recast r).selfAndClasses = d.selfAndClasses.map (·.recast r) :=
  walk_recast r d (fun d => d.containingClass?_recast r) _

theorem isEffectively_recast {flag : Flag} (h : flag ≠ .docOnly) :
    (d.recast r).isEffectively flag = d.isEffectively flag := by
  simp only [isEffectively, lineage_recast, List.any_map, Function.comp_def, recast_flags,
    ItemFlags.get_recast r _ h]

@[simp] theorem isEffectively_hidden_recast :
    (d.recast r).isEffectively .hidden = d.isEffectively .hidden := d.isEffectively_recast r (by decide)
@[simp] theorem isEffectively_removed_recast :
    (d.recast r).isEffectively .removed = d.isEffectively .removed := d.isEffectively_recast r (by decide)
@[simp] theorem isEffectively_deprecated_recast :
    (d.recast r).isEffectively .deprecated = d.isEffectively .deprecated :=
  d.isEffectively_recast r (by decide)

theorem constructors_recast : (d.recast r).constructors =
    d.constructors.map (·.recast r) := by
  simp only [constructors, recast_asClass?, recast_surface, Surface.decls_recast]
  cases d.asClass? <;> rfl

theorem methods_recast : (d.recast r).methods =
    d.methods.map (·.recast r) := by
  simp only [methods, recast_asClass?, recast_surface, Surface.decls_recast]
  cases d.asClass? <;> rfl

theorem fields_recast : (d.recast r).fields =
    d.fields.map (·.recast r) := by
  simp only [fields, recast_asClass?, recast_surface, Surface.decls_recast]
  cases d.asClass? <;> rfl

theorem classes_recast : (d.recast r).classes = d.classes.map (·.recast r) := by
  simp only [classes, recast_asPackage?, recast_surface, Surface.decls_recast]
  cases d.asPackage? <;> rfl

theorem parameters_recast : (d.recast r).parameters = d.parameters.map (·.recast r) := by
  simp only [parameters, asMethod?_recast, recast_surface, Surface.decls_recast]
  cases d.asMethod? <;> rfl

theorem overridden_recast : (d.recast r).overridden = d.overridden.map (·.recast r) := by
  simp only [overridden, asMethod?_recast, recast_surface, Surface.decls_recast]
  cases d.asMethod? <;> rfl

@[simp] theorem parameterTypes_recast : (d.recast r).parameterTypes = d.parameterTypes := by
  simp only [parameterTypes, parameters_recast, List.filterMap_map, Function.comp_def, recast_asParameter?]

@[simp] theorem typeScope_recast : (d.recast r).typeScope = d.typeScope := by
  have hm : ((d.containingMethod?.map (·.recast r)).map ownTypeParameters) =
      d.containingMethod?.map ownTypeParameters := by
    simp only [Option.map_map, Function.comp_def, recast_ownTypeParameters]
  simp only [typeScope, containingMethod?_recast, hm, enclosingClasses, selfAndClasses_recast,
    ← List.map_tail, List.flatMap_map, recast_ownTypeParameters]

theorem parameterAgrees_recast_left (e : Decl) (a b : TypeRef) :
    parameterAgrees (d.recast r) e a b = parameterAgrees d e a b := by
  simp only [parameterAgrees, typeScope_recast, recast_surface, Surface.recast_isPartial]

@[simp] theorem signatureMatches_recast_left (e : Decl) :
    (d.recast r).signatureMatches e = d.signatureMatches e := by
  simp only [signatureMatches, asMethod?_recast, parameterTypes_recast, parameterAgrees_recast_left]
  cases d.asMethod? <;> cases e.asMethod? <;> rfl

@[simp] theorem signatureMatches_recast_right (e : Decl) :
    e.signatureMatches (d.recast r) = e.signatureMatches d := by
  rw [signatureMatches_comm, signatureMatches_recast_left, signatureMatches_comm]

theorem sameSignature_recast (e : Decl) (rawTypes : Bool) :
    (d.recast r).sameSignature (e.recast r) rawTypes =
      d.sameSignature e rawTypes := by
  simp only [sameSignature, asMethod?_recast, parameterTypes_recast, typeScope_recast, recast_flags,
    recast_modifiers, ItemFlags.recast_deprecated, Modifiers.equivalent_recast]
  cases d.asMethod? <;> cases e.asMethod? <;> rfl

end Decl

theorem Filter.published_recast (d : Decl) :
    Filter.published (d.recast r) = Filter.published d := by
  have hs : ((d.recast r).containingMethod?.getD (d.recast r)) =
      (d.containingMethod?.getD d).recast r := by
    rw [Decl.containingMethod?_recast]
    cases d.containingMethod? <;> rfl
  simp only [Filter.published, hs, Decl.selfAndClasses_recast, List.all_map,
    Decl.isEffectively_hidden_recast, Decl.isEffectively_removed_recast]
  rfl

/-! ## Walks of the hierarchy -/

def SuperclassChain.recast (chain : SuperclassChain) (r : Recast) :
    SuperclassChain :=
  { chain with members := chain.members.map (·.recast r) }

def InterfaceUse.recast (use : InterfaceUse) (r : Recast) : InterfaceUse :=
  { use with target := use.target.map (·.recast r) }

namespace View

variable (v : View)

theorem surfaces_recast :
    (v.recast r).surfaces = v.surfaces.map (·.recast r) := rfl

theorem findClass?_recast (name : String) : (v.recast r).findClass? name =
    (v.findClass? name).map (·.recast r) := by
  simp only [findClass?, surfaces_recast, List.findSome?_map, List.map_findSome?]
  congr 1; funext s
  exact s.findClass?_recast r name

theorem resolve_recast (type : TypeRef) : (v.recast r).resolve type =
    (v.resolve type).map (·.recast r) :=
  findClass?_recast r v _

theorem classCount_recast : (v.recast r).classCount = v.classCount := by
  simp only [classCount, surfaces_recast, List.foldr_map, Surface.recast_classes]

theorem superclassesAbove_recast (bound : Nat) (seen : List String) (d : Decl) :
    (v.recast r).superclassesAbove bound seen (d.recast r) =
      (v.superclassesAbove bound seen d).recast r := by
  induction bound generalizing seen d with
  | zero => rfl
  | succ bound ih =>
    simp only [superclassesAbove, Decl.recast_superclass?, resolve_recast]
    cases d.superclass? with
    | none => rfl
    | some type =>
      cases h : v.resolve type with
      | none => simp [h, SuperclassChain.recast]
      | some above =>
        simp only [h, Option.map_some, Decl.recast_name, ih]
        split <;> simp [SuperclassChain.recast]

theorem superclassChain_recast (d : Decl) :
    (v.recast r).superclassChain (d.recast r) =
      (v.superclassChain d).recast r := by
  simp only [superclassChain, classCount_recast, Decl.recast_name, superclassesAbove_recast]

theorem interfaceUses_recast (d : Decl) :
    (v.recast r).interfaceUses (d.recast r) =
      (v.interfaceUses d).map (·.recast r) := by
  simp only [interfaceUses, Decl.recast_interfaces, resolve_recast, List.map_map]
  rfl

theorem foldl_enqueue_recast (uses : List InterfaceUse) (seen : List String) (queue : List Decl) :
    (uses.map (·.recast r)).foldl enqueue
        (seen, queue.map (·.recast r)) =
      ((uses.foldl enqueue (seen, queue)).1,
        (uses.foldl enqueue (seen, queue)).2.map (·.recast r)) := by
  induction uses generalizing seen queue with
  | nil => rfl
  | cons use rest ih =>
    simp only [List.map_cons, List.foldl_cons]
    rcases use with ⟨type, _ | next⟩
    · exact ih seen queue
    · have hn : (InterfaceUse.mk type (some next)).recast r =
          ⟨type, some (next.recast r)⟩ := rfl
      by_cases hs : seen.contains next.name = true
      · simp only [hn, enqueue, Decl.recast_name, hs, if_true]
        exact ih seen queue
      · simp only [hn, enqueue, Decl.recast_name, hs]
        simpa using ih (next.name :: seen) (queue ++ [next])

theorem interfaceWalk_recast (bound : Nat) (seen : List String) (queue : List Decl) :
    (v.recast r).interfaceWalk bound seen
        (queue.map (·.recast r)) =
      (v.interfaceWalk bound seen queue).map (·.recast r) := by
  induction bound generalizing seen queue with
  | zero => rfl
  | succ bound ih =>
    cases queue with
    | nil => rfl
    | cons current queue =>
      simp only [List.map_cons, interfaceWalk, interfaceUses_recast, foldl_enqueue_recast, ih,
        List.map_append]

theorem interfacesAbove_recast (d : Decl) (chain : List Decl) :
    (v.recast r).interfacesAbove
        (d.recast r :: chain.map (·.recast r)) =
      (v.interfacesAbove (d :: chain)).map (·.recast r) := by
  simp only [interfacesAbove, List.length_cons, List.length_map, classCount_recast]
  exact v.interfaceWalk_recast r _ [] (d :: chain)

theorem searchSupertypes_recast (d : Decl) (superclasses interfaces : Bool)
    {search search' : Decl → Option Decl}
    (h : ∀ d : Decl, search' (d.recast r) =
      (search d).map (·.recast r)) :
    (v.recast r).searchSupertypes (d.recast r) superclasses
        interfaces search' =
      (v.searchSupertypes d superclasses interfaces search).map (·.recast r) := by
  have hf : ∀ ds : List Decl, (ds.map (·.recast r)).findSome? search' =
      (ds.findSome? search).map (·.recast r) := by
    intro ds
    rw [List.findSome?_map, List.map_findSome?]
    congr 1; funext d; exact h d
  have hu : ∀ uses : List InterfaceUse,
      (uses.map (·.recast r)).findSome? (fun use => use.target.bind search') =
        (uses.findSome? fun use => use.target.bind search).map (·.recast r) := by
    intro uses
    rw [List.findSome?_map, List.map_findSome?]
    congr 1; funext use
    rcases use with ⟨type, _ | target⟩
    · rfl
    · exact h target
  have hc : (if superclasses then ((v.superclassChain d).recast r).members else []) =
      (if superclasses then (v.superclassChain d).members else []).map
        (·.recast r) := by
    cases superclasses <;> rfl
  simp only [searchSupertypes, superclassChain_recast, hc, hf, interfacesAbove_recast, hu,
    Option.map_or]
  cases interfaces <;> rfl

section Search

variable {accept accept' : Decl → Bool}

theorem findMethod?_recast (d probe : Decl) (superclasses interfaces : Bool)
    (h : ∀ d : Decl, accept' (d.recast r) = accept d) :
    (v.recast r).findMethod? (d.recast r) (probe.recast r) superclasses interfaces accept' =
      (v.findMethod? d probe superclasses interfaces accept).map (·.recast r) := by
  have hf : ∀ ds : List Decl, (ds.map (·.recast r)).find?
        (fun c => c.signatureMatches (probe.recast r) && accept' c) =
      (ds.find? fun c => c.signatureMatches probe && accept c).map (·.recast r) := by
    intro ds
    simp only [List.find?_map, Function.comp_def, Decl.signatureMatches_recast_left,
      Decl.signatureMatches_recast_right, h]
  simp only [findMethod?, Decl.recast_isConstructor, Decl.constructors_recast, Decl.methods_recast, hf]
  rw [searchSupertypes_recast r v d superclasses interfaces (fun t => by
    rw [Decl.methods_recast, hf])]
  split
  · rfl
  · rw [Option.map_or]

theorem findField?_recast (d : Decl) (name : String) (superclasses interfaces : Bool)
    (h : ∀ d : Decl, accept' (d.recast r) = accept d) :
    (v.recast r).findField? (d.recast r) name superclasses interfaces accept' =
      (v.findField? d name superclasses interfaces accept).map (·.recast r) := by
  have hname : ∀ c : Decl, ((c.recast r).asField?.any fun info => info.name == name) =
      c.asField?.any fun info => info.name == name := by
    intro c
    rw [Decl.asField?_recast, Option.any_map]
    rfl
  have hf : ∀ ds : List Decl, (ds.map (·.recast r)).find?
        (fun c => (c.asField?.any fun info => info.name == name) && accept' c) =
      (ds.find? fun c => (c.asField?.any fun info => info.name == name) && accept c).map
        (·.recast r) := by
    intro ds
    simp only [List.find?_map, Function.comp_def, hname, h]
  simp only [findField?, Decl.fields_recast, hf]
  rw [searchSupertypes_recast r v d superclasses interfaces (fun t => by rw [Decl.fields_recast, hf]),
    Option.map_or]

end Search

/-! ## Questions to the hierarchy -/

theorem extendsAbove_recast (name : String) (bound : Nat) (seen : List String) (d : Decl) :
    (v.recast r).extendsAbove name bound seen (d.recast r) = v.extendsAbove name bound seen d := by
  induction bound generalizing seen d with
  | zero => rfl
  | succ bound ih =>
    simp only [extendsAbove, Decl.recast_superclass?, resolve_recast]
    cases d.superclass? with
    | none => rfl
    | some type =>
      cases h : v.resolve type with
      | none => simp only [h, Option.map_none]
      | some above => simp only [h, Option.map_some, Decl.recast_name, ih]

@[simp] theorem extendsClass_recast (d : Decl) (name : String) :
    (v.recast r).extendsClass (d.recast r) name = v.extendsClass d name := by
  simp only [extendsClass, classCount_recast, Decl.recast_name, extendsAbove_recast]

@[simp] theorem implementsInterface_recast (d : Decl) (name : String) :
    (v.recast r).implementsInterface (d.recast r) name = v.implementsInterface d name := by
  simp only [implementsInterface, superclassChain_recast, SuperclassChain.recast,
    interfacesAbove_recast, List.any_map, List.all_map]
  simp only [Function.comp_def, InterfaceUse.recast, Option.isSome_map]

@[simp] theorem extendsOrImplements_recast (d : Decl) (name : String) :
    (v.recast r).extendsOrImplements (d.recast r) name = v.extendsOrImplements d name := by
  simp only [extendsOrImplements, extendsClass_recast, implementsInterface_recast]

end View

/-! ## Finishing -/

/-- A change of one entry of a sequence commutes with a map of all of them. -/
theorem map_modify {α : Type} {f g h : α → α} (hcomm : ∀ x, g (f x) = h (g x)) (items : Array α) (i : Nat) :
    (items.modify i f).map g = (items.map g).modify i h := by
  apply Array.ext_getElem?
  intro j
  rw [Array.getElem?_map, Array.getElem?_modify, Array.getElem?_modify, Array.getElem?_map]
  split
  · simp only [Option.map_map, Function.comp_def, hcomm]
  · rfl

namespace Surface

variable (s : Surface)

theorem alone_recast : (s.recast r).alone = s.alone.recast r := rfl

theorem isExposed_recast (exposed : List Decl) (method : Decl) :
    isExposed (exposed.map (·.recast r)) (method.recast r) =
      isExposed exposed method := by
  simp only [isExposed, List.find?_map, Function.comp_def, Decl.signatureMatches_recast_left,
    Decl.signatureMatches_recast_right, Option.any_map, Decl.sameSignature_recast]

theorem newMethods_recast (exposed methods : List Decl) :
    newMethods (exposed.map (·.recast r))
        (methods.map (·.recast r)) =
      (newMethods exposed methods).map (·.recast r) := by
  induction methods generalizing exposed with
  | nil => rfl
  | cons method rest ih =>
    have hi : isInheritable (method.recast r) = isInheritable method := rfl
    have hx := ih (exposed ++ [method])
    rw [List.map_append] at hx
    simp only [List.map_cons, newMethods, hi, isExposed_recast]
    split
    · rw [List.map_cons, ← hx]; rfl
    · exact ih exposed

theorem newFields_recast (names : List String) (fields : List Decl) :
    newFields names (fields.map (·.recast r)) =
      (newFields names fields).map (·.recast r) := by
  induction fields generalizing names with
  | nil => rfl
  | cons field rest ih =>
    have hi : isInheritable (field.recast r) = isInheritable field := rfl
    simp only [List.map_cons, newFields, hi, Decl.recast_name, ih]
    split <;> rfl

theorem map_name_recast (ds : List Decl) :
    (ds.map (·.recast r)).map Decl.name = ds.map Decl.name := by
  simp only [List.map_map, Function.comp_def, Decl.recast_name]

theorem copiesFrom_recast (owner : Decl) (methods : List Decl) (names : List String)
    (chain : List Decl) :
    copiesFrom (owner.recast r) (methods.map (·.recast r)) names
        (chain.map (·.recast r)) = copiesFrom owner methods names chain := by
  induction chain generalizing methods names with
  | nil => rfl
  | cons above rest ih =>
    simp only [List.map_cons, copiesFrom, Decl.methods_recast, Decl.fields_recast,
      newMethods_recast, newFields_recast, ← List.map_append, ih, map_name_recast]
    simp only [List.map_map, Function.comp_def, Decl.recast_id]

theorem hiddenSuperclasses_recast (d : Decl) :
    (s.recast r).hiddenSuperclasses (d.recast r) =
      (s.hiddenSuperclasses d).map (·.recast r) := by
  simp only [hiddenSuperclasses, alone_recast, View.superclassChain_recast,
    SuperclassChain.recast, List.takeWhile_map, Function.comp_def, Decl.isEffectively_hidden_recast]

/-- The plan of copies holds ids only, so it is the same for every load. -/
theorem inheritedCopies_recast :
    (s.recast r).inheritedCopies = s.inheritedCopies := by
  simp only [inheritedCopies, classDecls_recast, List.flatMap_map, Decl.isEffectively_hidden_recast,
    Decl.methods_recast, Decl.fields_recast, map_name_recast, hiddenSuperclasses_recast,
    copiesFrom_recast]

theorem modifyClassItem_recast (items : Array Item) (id : ItemId) (f : ClassInfo → ClassInfo) :
    modifyClassItem (items.map (·.recast r)) id f = (modifyClassItem items id f).map (·.recast r) := by
  refine (map_modify (fun item => ?_) items id.index).symm
  rcases item with ⟨_, _, _, _, _, payload⟩
  cases payload <;> rfl

theorem copyParameters_recast (method : ItemId) (items : Array Item) (parameters : List Item) :
    copyParameters method (items.map (·.recast r)) (parameters.map (·.recast r)) =
      (copyParameters method items parameters).map (·.recast r) := by
  unfold copyParameters
  induction parameters generalizing items with
  | nil => rfl
  | cons p rest ih =>
    rw [List.map_cons, List.foldl_cons, List.foldl_cons, ← ih, Array.map_push, Array.size_map]
    rfl

theorem addCopy_recast (items : Array Item) (copy : InheritedCopy) :
    addCopy (items.map (·.recast r)) copy = (addCopy items copy).map (·.recast r) := by
  have hparameters : ∀ ids : List ItemId,
      (ids.filterMap fun p => (items.map (·.recast r))[p.index]?) =
        (ids.filterMap fun p => items[p.index]?).map (·.recast r) := by
    intro ids
    rw [List.map_filterMap]
    simp only [Array.getElem?_map]
  unfold addCopy
  rw [Array.getElem?_map]
  cases items[copy.source.index]? with
  | none => rfl
  | some source =>
    rcases source with ⟨_, _, _, _, _, payload⟩
    cases payload with
    | method info =>
      change modifyClassItem (copyParameters _ ((items.map (·.recast r)).push _)
        (info.parameters.filterMap fun p => (items.map (·.recast r))[p.index]?)) copy.owner _ =
          (modifyClassItem (copyParameters _ (items.push _) _) copy.owner _).map (·.recast r)
      rw [← modifyClassItem_recast, ← copyParameters_recast, Array.map_push, ← hparameters]
      have hids : (info.recast r).parameters = info.parameters := rfl
      have hlength := congrArg List.length (hparameters info.parameters)
      rw [List.length_map] at hlength
      simp only [Array.size_map, hids, hlength]
      rfl
    | field info =>
      change modifyClassItem ((items.map (·.recast r)).push _) copy.owner _ =
        (modifyClassItem (items.push _) copy.owner _).map (·.recast r)
      rw [← modifyClassItem_recast, Array.map_push, Array.size_map]
      rfl
    | _ => rfl

theorem withInheritedCopies_recast : (s.recast r).withInheritedCopies = s.withInheritedCopies.recast r := by
  have hfold : ∀ (copies : List InheritedCopy) (items : Array Item),
      copies.foldl addCopy (items.map (·.recast r)) = (copies.foldl addCopy items).map (·.recast r) := by
    intro copies
    induction copies with
    | nil => exact fun _ => rfl
    | cons copy rest ih => exact fun items => by rw [List.foldl_cons, List.foldl_cons, addCopy_recast, ih]
  unfold withInheritedCopies
  rw [inheritedCopies_recast]
  exact congrArg (fun items => { s.recast r with items }) (hfold s.inheritedCopies s.items)

theorem directSupertypes_recast (d : Decl) :
    (s.recast r).directSupertypes (d.recast r) =
      (s.directSupertypes d).map (·.recast r) := by
  simp only [directSupertypes, Decl.recast_superclass?, Decl.recast_interfaces,
    findClass?_recast, ← List.map_filterMap, List.filter_map, Function.comp_def,
    Decl.recast_id]

theorem overriddenBy_recast (supertypes : List Decl) (method : Decl) :
    (s.recast r).overriddenBy (supertypes.map (·.recast r))
        (method.recast r) = s.overriddenBy supertypes method := by
  have hi : isOverridable (method.recast r) = isOverridable method := rfl
  have ht : ∀ above : Decl, ((s.recast r).overriddenThrough
        (method.recast r) (above.recast r)).map (·.id) =
      (s.overriddenThrough method above).map (·.id) := by
    intro above
    rw [overriddenThrough, alone_recast, View.findMethod?_recast r _ _ _ _ _ fun _ => rfl,
      overriddenThrough]
    cases s.alone.findMethod? above method true true with
    | none => rfl
    | some found =>
      have hf : isOverridable (found.recast r) = isOverridable found := rfl
      simp only [Option.map_some, Option.filter_some, hf]
      split <;> rfl
  simp only [overriddenBy, hi, List.filterMap_map, Function.comp_def, ht]

theorem overrides_recast : (s.recast r).overrides = s.overrides := by
  simp only [overrides, classDecls_recast, List.flatMap_map, directSupertypes_recast,
    Decl.methods_recast, List.map_map, Function.comp_def, Decl.recast_id,
    overriddenBy_recast]

theorem noteOverridden_recast (items : Array Item) (entry : ItemId × List ItemId) :
    noteOverridden (items.map (·.recast r)) entry = (noteOverridden items entry).map (·.recast r) := by
  refine (map_modify (fun item => ?_) items entry.1.index).symm
  rcases item with ⟨_, _, _, _, _, payload⟩
  cases payload <;> rfl

theorem withOverrides_recast : (s.recast r).withOverrides = s.withOverrides.recast r := by
  have hfold : ∀ (entries : List (ItemId × List ItemId)) (items : Array Item),
      entries.foldl noteOverridden (items.map (·.recast r)) =
        (entries.foldl noteOverridden items).map (·.recast r) := by
    intro entries
    induction entries with
    | nil => exact fun _ => rfl
    | cons entry rest ih =>
      exact fun items => by rw [List.foldl_cons, List.foldl_cons, noteOverridden_recast, ih]
  unfold withOverrides
  rw [overrides_recast]
  exact congrArg (fun items => { s.recast r with items }) (hfold s.overrides s.items)

end Surface

end ApiSurface
