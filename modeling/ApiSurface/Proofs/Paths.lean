import ApiSurface.Describe
import ApiSurface.Proofs.Ancestry
import ApiSurface.Proofs.Related
import ApiSurface.Proofs.Signature

/-! # Paths

The path of a declaration is what it and all that it is declared in say of themselves, from the inside
out and without the ids of other items. Declarations of two surfaces that have one path are namesakes.
Whatever a check asks of a single declaration it answers alike for namesakes, wherever they stand among
the items of their surfaces. -/
namespace ApiSurface

open Arena Surface

def MethodInfo.bare (info : MethodInfo) : MethodInfo :=
  { info with parameters := [], inheritedFrom := none, inheritedMethod := none, overridden := [] }

def Payload.bare : Payload → Payload
  | .package info => .package { info with classes := [] }
  | .ofClass info =>
    .ofClass
      { info with
        constructors := [], methods := [], fields := [], nested := [], package := ⟨0⟩, outer := none }
  | .method info => .method info.bare
  | .constructor info => .constructor info.bare
  | .field info => .field { info with inheritedFrom := none }
  | .parameter info => .parameter info

def Item.bare (item : Item) : Item :=
  { item with parent := none, rank := 0, payload := item.payload.bare }

/-- What a declaration says of itself. -/
structure Trait where
  item : Item
  parameterTypes : List TypeRef
  deriving DecidableEq

namespace Decl

def trait (d : Decl) : Trait := { item := d.item.bare, parameterTypes := d.parameterTypes }

theorem name_trait (d : Decl) : d.trait.item.payload.name = d.name := by
  unfold trait name Item.bare
  cases d.item.payload <;> rfl

/-- What the declaration and all that it is declared in say of themselves, from the inside out. -/
def path (d : Decl) : List Trait := d.lineage.map trait

/-- The declaration is one of a well-formed surface. -/
structure InPlace (d : Decl) : Prop where
  wellFormed : d.surface.WellFormed
  declares : d.surface.Declares d

/-- The declarations have one path, in surfaces of the same format. -/
structure Namesake (d d' : Decl) : Prop where
  left : d.InPlace
  right : d'.InPlace
  isPartial : d'.surface.isPartial = d.surface.isPartial
  path : d'.path = d.path

end Decl

theorem Surface.Declares.inPlace {s : Surface} {d : Decl} (hs : s.WellFormed) (hd : s.Declares d) :
    d.InPlace := by
  have h := hd.surface
  exact ⟨h ▸ hs, h ▸ hd⟩

def Item.lone (item : Item) : Decl :=
  { surface := { location := "", isPartial := false, items := #[], packages := ∅, classes := ∅ }
    id := ⟨0⟩
    item }

namespace Decl

variable {α : Type} {d d' e e' p : Decl}

namespace InPlace

theorem parent? (h : d.InPlace) (hp : d.parent? = some p) : p.InPlace ∧ p.id.index < d.id.index := by
  obtain ⟨hdecl, hlt⟩ := h.declares.parent? h.wellFormed hp
  exact ⟨hdecl.inPlace h.wellFormed, hlt⟩

theorem path_eq (h : d.InPlace) : d.path = d.trait :: (d.parent?.map Decl.path).getD [] := by
  unfold Decl.path
  rw [h.declares.lineage_eq h.wellFormed, List.map_cons]
  cases d.parent? <;> rfl

/-- A path begins with what the declaration says of itself. -/
theorem trait_of_path (h : d.InPlace) {t : Trait} {rest : List Trait} (hpath : d.path = t :: rest) :
    d.trait = t := (List.cons.inj (h.path_eq.symm.trans hpath)).1

theorem containingClass?_eq (h : d.InPlace) : d.containingClass? =
    match d.item.payload with
    | .package _ => none
    | .ofClass _ => d.parent?.filter fun p => p.asClass?.isSome
    | .method _ | .constructor _ | .field _ => d.parent?
    | .parameter _ => d.parent?.bind Decl.parent? := by
  cases hp : d.item.payload with
  | ofClass info =>
    exact h.declares.containingClass?_eq h.wellFormed (by rw [asClass?, hp]; rfl)
  | _ => rw [Decl.containingClass?, hp]

end InPlace

/-- What declarations that are related in such a way are declared in is so too, from the inside out. They
are of one sort. -/
structure Outward (R : Decl → Decl → Prop) : Prop where
  left : ∀ {d d'}, R d d' → d.InPlace
  right : ∀ {d d'}, R d d' → d'.InPlace
  label : ∀ {d d'}, R d d' → d'.item.payload.label = d.item.payload.label
  parent? : ∀ {d d'}, R d d' → Option.Rel R d.parent? d'.parent?

namespace Outward

variable {R : Decl → Decl → Prop}

/-- What a walk outwards meets from one of two related declarations is related to what it meets from the
other. -/
theorem walk (hR : Outward R) {next : Decl → Option Decl} {whole : Decl → List Decl}
    (hlt : ∀ {d p : Decl}, d.InPlace → next d = some p → p.id.index < d.id.index)
    (hwhole : ∀ {d : Decl}, d.InPlace → whole d = d :: ((next d).map whole).getD [])
    (hnext : ∀ {d d' : Decl}, R d d' → Option.Rel R (next d) (next d')) (h : R d d') :
    List.Forall₂ R (whole d) (whole d') := by
  induction hn : d.id.index using Nat.strong_induction_on generalizing d d' with
  | _ n ih =>
    subst hn
    rw [hwhole (hR.left h), hwhole (hR.right h)]
    refine .cons h ?_
    rcases rel_cases (hnext h) with ⟨hp, hp'⟩ | ⟨p, p', hp, hp', hpp⟩
    · rw [hp, hp']
      exact .nil
    · rw [hp, hp']
      exact ih p.id.index (hlt (hR.left h) hp) hpp rfl

theorem lineage (hR : Outward R) (h : R d d') : List.Forall₂ R d.lineage d'.lineage :=
  hR.walk (fun hd hp => (hd.parent? hp).2) (fun hd => hd.declares.lineage_eq hd.wellFormed) hR.parent? h

theorem isSome_asClass? (hR : Outward R) (h : R d d') : d'.asClass?.isSome = d.asClass?.isSome := by
  have hlabel := hR.label h
  unfold Decl.asClass?
  cases hp : d.item.payload <;> cases hp' : d'.item.payload <;> rw [hp, hp'] at hlabel <;>
    first | rfl | simp [Payload.label] at hlabel

theorem containingClass? (hR : Outward R) (h : R d d') :
    Option.Rel R d.containingClass? d'.containingClass? := by
  have hlabel := hR.label h
  have hparent := hR.parent? h
  rw [(hR.left h).containingClass?_eq, (hR.right h).containingClass?_eq]
  cases hp : d.item.payload <;> cases hp' : d'.item.payload <;> rw [hp, hp'] at hlabel <;>
    try simp [Payload.label] at hlabel
  case package.package => exact .none
  case ofClass.ofClass => exact rel_option_filter hparent fun _ _ hpp => hR.isSome_asClass? hpp
  case parameter.parameter => exact rel_bind hparent fun _ _ hpp => hR.parent? hpp
  all_goals exact hparent

theorem containingMethod? (hR : Outward R) (h : R d d') :
    Option.Rel R d.containingMethod? d'.containingMethod? := by
  have hlabel := hR.label h
  unfold Decl.containingMethod?
  cases hp : d.item.payload <;> cases hp' : d'.item.payload <;> rw [hp, hp'] at hlabel <;>
    try simp [Payload.label] at hlabel
  case parameter.parameter => exact hR.parent? h
  all_goals exact .none

theorem selfAndClasses (hR : Outward R) (h : R d d') :
    List.Forall₂ R d.selfAndClasses d'.selfAndClasses :=
  hR.walk (fun hd hp => (hd.declares.containingClass? hd.wellFormed hp).2)
    (fun hd => hd.declares.selfAndClasses_eq hd.wellFormed) hR.containingClass? h

/-- If `f` makes the own type parameters of one out of those of the other, it does so for all that are
visible. -/
theorem typeScope_eq_map (hR : Outward R) {f : TypeParameter → TypeParameter}
    (hown : ∀ {d d'}, R d d' → d'.ownTypeParameters = d.ownTypeParameters.map f) (h : R d d') :
    d'.typeScope = d.typeScope.map f := by
  have hmethod := map_of_rel (hR.containingMethod? h) fun _ _ h => hown h
  have hclasses := flatMap_of_forall₂ (forall₂_tail (hR.selfAndClasses h)) fun _ _ h => hown h
  have hdefault : ∀ o : Option Decl, (o.map fun d => d.ownTypeParameters.map f).getD [] =
      ((o.map ownTypeParameters).getD []).map f := by
    intro o
    cases o <;> rfl
  unfold typeScope enclosingClasses
  rw [hown h, hmethod, hdefault, hclasses, List.map_append, List.map_append, List.map_flatMap]

theorem typeScope_eq (hR : Outward R)
    (hown : ∀ {d d'}, R d d' → d'.ownTypeParameters = d.ownTypeParameters) (h : R d d') :
    d'.typeScope = d.typeScope := by
  rw [hR.typeScope_eq_map (fun h => (hown h).trans (List.map_id _).symm) h, List.map_id]

end Outward

namespace Namesake

theorem refl (h : d.InPlace) : d.Namesake d := ⟨h, h, rfl, rfl⟩

/-! ## What the items say -/

theorem trait (h : d.Namesake d') : d'.trait = d.trait := by
  have hp := h.path
  rw [h.left.path_eq, h.right.path_eq] at hp
  exact (List.cons.inj hp).1

theorem bare (h : d.Namesake d') : d'.item.bare = d.item.bare := congrArg Trait.item h.trait

theorem parameterTypes (h : d.Namesake d') : d'.parameterTypes = d.parameterTypes :=
  congrArg Trait.parameterTypes h.trait

theorem payload (h : d.Namesake d') : d'.item.payload.bare = d.item.payload.bare :=
  congrArg Item.payload h.bare

/-- What can be read off the item without its ids is the same for namesakes. -/
theorem observe {f : Decl → α} (hf : ∀ d : Decl, f d = f d.item.bare.lone) (h : d.Namesake d') :
    f d' = f d := by
  rw [hf d', hf d, h.bare]

theorem name (h : d.Namesake d') : d'.name = d.name := by
  refine h.observe fun d => ?_
  unfold Decl.name Item.lone Item.bare
  cases d.item.payload <;> rfl

theorem modifiers (h : d.Namesake d') : d'.modifiers = d.modifiers := h.observe fun _ => rfl

theorem flags (h : d.Namesake d') : d'.flags = d.flags := h.observe fun _ => rfl

theorem isEmitted (h : d.Namesake d') : d'.isEmitted = d.isEmitted := h.observe fun _ => rfl

theorem isConstructor (h : d.Namesake d') : d'.isConstructor = d.isConstructor := by
  refine h.observe fun d => ?_
  unfold Decl.isConstructor Item.lone Item.bare
  cases d.item.payload <;> rfl

theorem classKind? (h : d.Namesake d') : d'.classKind? = d.classKind? := by
  refine h.observe fun d => ?_
  unfold Decl.classKind? Decl.asClass? Item.lone Item.bare
  cases d.item.payload <;> rfl

theorem isClosed (h : d.Namesake d') : d'.isClosed = d.isClosed := by
  rw [Decl.isClosed, Decl.isClosed, h.classKind?, h.modifiers]

theorem superclass? (h : d.Namesake d') : d'.superclass? = d.superclass? := by
  refine h.observe fun d => ?_
  unfold Decl.superclass? Decl.asClass? Item.lone Item.bare
  cases d.item.payload <;> rfl

theorem interfaces (h : d.Namesake d') : d'.interfaces = d.interfaces := by
  refine h.observe fun d => ?_
  unfold Decl.interfaces Decl.asClass? Item.lone Item.bare
  cases d.item.payload <;> rfl

theorem ownTypeParameters (h : d.Namesake d') : d'.ownTypeParameters = d.ownTypeParameters := by
  refine h.observe fun d => ?_
  unfold Decl.ownTypeParameters Item.lone Item.bare
  cases d.item.payload <;> rfl

theorem isSome_asPackage? (h : d.Namesake d') : d'.asPackage?.isSome = d.asPackage?.isSome := by
  refine h.observe (f := fun d => d.asPackage?.isSome) fun d => ?_
  unfold Decl.asPackage? Item.lone Item.bare
  cases d.item.payload <;> rfl

theorem isSome_asClass? (h : d.Namesake d') : d'.asClass?.isSome = d.asClass?.isSome := by
  refine h.observe (f := fun d => d.asClass?.isSome) fun d => ?_
  unfold Decl.asClass? Item.lone Item.bare
  cases d.item.payload <;> rfl

theorem asParameter? (h : d.Namesake d') : d'.asParameter? = d.asParameter? := by
  refine h.observe fun d => ?_
  unfold Decl.asParameter? Item.lone Item.bare
  cases d.item.payload <;> rfl

theorem map_asMethod? (h : d.Namesake d') :
    d'.asMethod?.map MethodInfo.bare = d.asMethod?.map MethodInfo.bare := by
  refine h.observe (f := fun d => d.asMethod?.map MethodInfo.bare) fun d => ?_
  unfold Decl.asMethod? Item.lone Item.bare
  cases d.item.payload <;> rfl

theorem map_asField? (h : d.Namesake d') :
    d'.asField?.map (fun info => { info with inheritedFrom := none }) =
      d.asField?.map fun info => { info with inheritedFrom := none } := by
  refine h.observe
    (f := fun d => d.asField?.map fun info => { info with inheritedFrom := none }) fun d => ?_
  unfold Decl.asField? Item.lone Item.bare
  cases d.item.payload <;> rfl

/-- Of a method or constructor the namesake is one too, the same but for its ids. -/
theorem asMethod? (h : d.Namesake d') :
    Option.Rel (fun m m' : MethodInfo => m'.bare = m.bare) d.asMethod? d'.asMethod? :=
  rel_of_map_eq h.map_asMethod?

/-! ## What lies around them -/

/-- Namesakes are declared in namesakes. -/
theorem parent? (h : d.Namesake d') : Option.Rel Namesake d.parent? d'.parent? := by
  have hp := h.path
  rw [h.left.path_eq, h.right.path_eq] at hp
  have htail := (List.cons.inj hp).2
  cases hd : d.parent? with
  | none =>
    cases hd' : d'.parent? with
    | none => exact .none
    | some p' =>
      rw [hd, hd', Option.map_some, (h.right.parent? hd').1.path_eq] at htail
      cases htail
  | some p =>
    have hin := (h.left.parent? hd).1
    cases hd' : d'.parent? with
    | none =>
      rw [hd, hd', Option.map_some, hin.path_eq] at htail
      cases htail
    | some p' =>
      have hin' := (h.right.parent? hd').1
      rw [hd, hd'] at htail
      have hs : p.surface = d.surface := (h.left.declares.parent? h.left.wellFormed hd).1.surface
      have hs' : p'.surface = d'.surface :=
        (h.right.declares.parent? h.right.wellFormed hd').1.surface
      exact .some ⟨hin, hin', by rw [hs, hs', h.isPartial], htail⟩

theorem label (h : d.Namesake d') : d'.item.payload.label = d.item.payload.label := by
  refine h.observe (f := fun d => d.item.payload.label) fun d => ?_
  unfold Item.lone Item.bare
  cases d.item.payload <;> rfl

theorem outward : Outward Namesake where
  left h := h.left
  right h := h.right
  label h := h.label
  parent? h := h.parent?

theorem lineage (h : d.Namesake d') : List.Forall₂ Namesake d.lineage d'.lineage := outward.lineage h

theorem containingClass? (h : d.Namesake d') :
    Option.Rel Namesake d.containingClass? d'.containingClass? := outward.containingClass? h

theorem containingMethod? (h : d.Namesake d') :
    Option.Rel Namesake d.containingMethod? d'.containingMethod? := outward.containingMethod? h

theorem selfAndClasses (h : d.Namesake d') :
    List.Forall₂ Namesake d.selfAndClasses d'.selfAndClasses := outward.selfAndClasses h

theorem isEffectively (h : d.Namesake d') (flag : Flag) :
    d'.isEffectively flag = d.isEffectively flag :=
  any_of_forall₂ h.lineage fun _ _ hxy => by rw [hxy.flags]

/-- A subject that is found among namesakes gives namesakes. -/
theorem subject (h : d.Namesake d') :
    (d.containingMethod?.getD d).Namesake (d'.containingMethod?.getD d') :=
  rel_getD h.containingMethod? h

theorem typeScope (h : d.Namesake d') : d'.typeScope = d.typeScope :=
  outward.typeScope_eq (fun h => h.ownTypeParameters) h

/-! ## Comparisons of two declarations -/

theorem parameterAgrees (h : d.Namesake d') (h' : e.Namesake e') (s t : TypeRef) :
    Decl.parameterAgrees d' e' s t = Decl.parameterAgrees d e s t := by
  unfold Decl.parameterAgrees
  rw [h.typeScope, h'.typeScope, h.isPartial, h'.isPartial]

theorem signatureMatches (h : d.Namesake d') (h' : e.Namesake e') :
    d'.signatureMatches e' = d.signatureMatches e := by
  unfold Decl.signatureMatches
  rcases rel_cases h.asMethod? with ⟨hd, hd'⟩ | ⟨m, m', hd, hd', hm⟩
  · rw [hd, hd']
  · rcases rel_cases h'.asMethod? with ⟨he, he'⟩ | ⟨n, n', he, he', hn⟩
    · rw [hd, hd', he, he']
    · have hmname : m'.name = m.name := (congrArg MethodInfo.name hm :)
      have hnname : n'.name = n.name := (congrArg MethodInfo.name hn :)
      rw [hd, hd', he, he']
      simp only [hmname, hnname, h.parameterTypes, h'.parameterTypes, h.parameterAgrees h']

theorem sameSignature (h : d.Namesake d') (h' : e.Namesake e') (rawTypes : Bool) :
    d'.sameSignature e' rawTypes = d.sameSignature e rawTypes := by
  unfold Decl.sameSignature
  rcases rel_cases h.asMethod? with ⟨hd, hd'⟩ | ⟨m, m', hd, hd', hm⟩
  · rw [hd, hd']
  · rcases rel_cases h'.asMethod? with ⟨he, he'⟩ | ⟨n, n', he, he', hn⟩
    · rw [hd, hd', he, he']
    · have hreturn : m'.returnType = m.returnType := (congrArg MethodInfo.returnType hm :)
      have hreturn' : n'.returnType = n.returnType := (congrArg MethodInfo.returnType hn :)
      have hthrows : m'.throws = m.throws := (congrArg MethodInfo.throws hm :)
      have hthrows' : n'.throws = n.throws := (congrArg MethodInfo.throws hn :)
      rw [hd, hd', he, he']
      simp only [hreturn, hreturn', hthrows, hthrows', h.flags, h'.flags, h.modifiers, h'.modifiers,
        h.parameterTypes, h'.parameterTypes, h.typeScope, h'.typeScope]

/-! ## Descriptions -/

theorem parameterList (h : d.Namesake d') : d'.parameterList = d.parameterList := by
  unfold Decl.parameterList
  rw [h.parameterTypes]

theorem ownerName (h : d.Namesake d') : d'.ownerName = d.ownerName := by
  have hname : ∀ {d d' : Decl}, d.Namesake d' →
      d'.asClass?.map (·.qualifiedName) = d.asClass?.map (·.qualifiedName) := by
    intro d d' h
    refine h.observe (f := fun d => d.asClass?.map (·.qualifiedName)) fun d => ?_
    unfold Decl.asClass? Item.lone Item.bare
    cases d.item.payload <;> rfl
  unfold Decl.ownerName
  rw [Option.map_bind, Option.map_bind]
  exact congrArg (Option.getD · "") (bind_of_rel h.containingClass? fun _ _ h => hname h)

theorem methodSignature (h : d.Namesake d') (owner : String) :
    Decl.methodSignature owner d' = Decl.methodSignature owner d := by
  unfold Decl.methodSignature
  rw [h.isConstructor, h.name, h.parameterList]

theorem describe (h : d.Namesake d') : d'.describe = d.describe := by
  have hpay := h.payload
  have hmethod := map_of_rel h.containingMethod? fun _ _ h => h.methodSignature d.ownerName
  unfold Decl.describe
  rw [h.ownerName, h.parameterList, h.name, hmethod]
  cases hp : d.item.payload <;> cases hp' : d'.item.payload <;> rw [hp, hp'] at hpay <;>
    try cases hpay
  all_goals simp_all [Payload.bare, MethodInfo.bare]

theorem title (h : d.Namesake d') : d'.title = d.title := by
  unfold Decl.title
  rw [h.describe]

end Namesake

end Decl

end ApiSurface
