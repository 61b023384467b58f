import ApiSurface.View
import ApiSurface.Hierarchy
import ApiSurface.Proofs.Related

/-! # Views that answer alike

Each walk of the hierarchy looks at names, at references to supertypes and at what a view finds under a
name, and at nothing else of a class. Where two views agree on these for related classes, each walk meets
related classes in the same order, sees the same names and stops at the same place, so what it finds is
related, and what it decides is the same. -/
namespace ApiSurface

/-- Related classes have the same name and the same references, and the views find related classes, of
which they count as many. -/
structure View.Alike (R : Decl → Decl → Prop) (v v' : View) : Prop where
  name : ∀ {d d'}, R d d' → d'.name = d.name
  superclass? : ∀ {d d'}, R d d' → d'.superclass? = d.superclass?
  interfaces : ∀ {d d'}, R d d' → d'.interfaces = d.interfaces
  findClass? : ∀ name, Option.Rel R (v.findClass? name) (v'.findClass? name)
  classCount : v'.classCount = v.classCount

/-- The references name the same type, and related classes if anything. -/
structure InterfaceUse.Alike (R : Decl → Decl → Prop) (use use' : InterfaceUse) : Prop where
  type : use'.type = use.type
  target : Option.Rel R use.target use'.target

namespace View.Alike

variable {R : Decl → Decl → Prop} {v v' : View} {d d' : Decl}

theorem resolve (hv : Alike R v v') (type : TypeRef) : Option.Rel R (v.resolve type) (v'.resolve type) :=
  hv.findClass? type.baseName

/-! ## Superclasses -/

theorem superclassesAbove (hv : Alike R v v') (bound : Nat) (seen : List String) (hd : R d d') :
    List.Forall₂ R (v.superclassesAbove bound seen d).members
        (v'.superclassesAbove bound seen d').members ∧
      (v'.superclassesAbove bound seen d').isComplete =
        (v.superclassesAbove bound seen d).isComplete := by
  induction bound generalizing seen d d' with
  | zero => exact ⟨.nil, rfl⟩
  | succ bound ih =>
    rw [View.superclassesAbove, View.superclassesAbove, hv.superclass? hd]
    cases d.superclass? with
    | none => exact ⟨.nil, rfl⟩
    | some type =>
      dsimp only
      rcases rel_cases (hv.resolve type) with ⟨hr, hr'⟩ | ⟨above, above', hr, hr', habove⟩
      · rw [hr, hr']
        exact ⟨.nil, rfl⟩
      · rw [hr, hr']
        dsimp only
        rw [hv.name habove]
        split
        · exact ⟨.nil, rfl⟩
        · obtain ⟨hmembers, hcomplete⟩ := ih (above.name :: seen) habove
          exact ⟨.cons habove hmembers, hcomplete⟩

theorem superclassChain (hv : Alike R v v') (hd : R d d') :
    List.Forall₂ R (v.superclassChain d).members (v'.superclassChain d').members ∧
      (v'.superclassChain d').isComplete = (v.superclassChain d).isComplete := by
  unfold View.superclassChain
  rw [hv.classCount, hv.name hd]
  exact hv.superclassesAbove _ _ hd

theorem extendsAbove (hv : Alike R v v') (name : String) (bound : Nat) (seen : List String)
    (hd : R d d') : v'.extendsAbove name bound seen d' = v.extendsAbove name bound seen d := by
  induction bound generalizing seen d d' with
  | zero => rfl
  | succ bound ih =>
    rw [View.extendsAbove, View.extendsAbove, hv.superclass? hd]
    cases d.superclass? with
    | none => rfl
    | some type =>
      dsimp only
      split
      · rfl
      · rcases rel_cases (hv.resolve type) with ⟨hr, hr'⟩ | ⟨above, above', hr, hr', habove⟩
        · rw [hr, hr']
        · rw [hr, hr']
          dsimp only
          rw [hv.name habove, ih (above.name :: seen) habove]

theorem extendsClass (hv : Alike R v v') (hd : R d d') (name : String) :
    v'.extendsClass d' name = v.extendsClass d name := by
  unfold View.extendsClass
  rw [hv.name hd, hv.classCount, hv.extendsAbove name _ _ hd]

/-! ## Interfaces -/

theorem interfaceUses (hv : Alike R v v') (hd : R d d') :
    List.Forall₂ (InterfaceUse.Alike R) (v.interfaceUses d) (v'.interfaceUses d') := by
  unfold View.interfaceUses
  rw [hv.interfaces hd, List.forall₂_map_left_iff, List.forall₂_map_right_iff]
  exact List.forall₂_same.mpr fun type _ => ⟨rfl, hv.resolve type⟩

theorem foldl_enqueue (hv : Alike R v v') {uses uses' : List InterfaceUse}
    (huses : List.Forall₂ (InterfaceUse.Alike R) uses uses') (seen : List String)
    {queue queue' : List Decl} (hqueue : List.Forall₂ R queue queue') :
    (uses'.foldl enqueue (seen, queue')).1 = (uses.foldl enqueue (seen, queue)).1 ∧
      List.Forall₂ R (uses.foldl enqueue (seen, queue)).2 (uses'.foldl enqueue (seen, queue')).2 := by
  induction huses generalizing seen queue queue' with
  | nil => exact ⟨rfl, hqueue⟩
  | @cons use use' _ _ huse _ ih =>
    rw [List.foldl_cons, List.foldl_cons]
    rcases rel_cases huse.target with ⟨ht, ht'⟩ | ⟨next, next', ht, ht', hnext⟩
    · rw [enqueue, enqueue, ht, ht']
      exact ih seen hqueue
    · rw [enqueue, enqueue, ht, ht']
      dsimp only
      rw [hv.name hnext]
      split
      · exact ih seen hqueue
      · exact ih (next.name :: seen) (List.rel_append hqueue (.cons hnext .nil))

theorem interfaceWalk (hv : Alike R v v') (bound : Nat) (seen : List String) {queue queue' : List Decl}
    (hqueue : List.Forall₂ R queue queue') : List.Forall₂ (InterfaceUse.Alike R)
      (v.interfaceWalk bound seen queue) (v'.interfaceWalk bound seen queue') := by
  induction bound generalizing seen queue queue' with
  | zero => exact .nil
  | succ bound ih =>
    cases hqueue with
    | nil => exact .nil
    | cons hcurrent hrest =>
      have huses := hv.interfaceUses hcurrent
      obtain ⟨hseen, hnext⟩ := hv.foldl_enqueue huses seen hrest
      rw [View.interfaceWalk, View.interfaceWalk]
      dsimp only
      rw [hseen]
      exact List.rel_append huses (ih _ hnext)

theorem interfacesAbove (hv : Alike R v v') {roots roots' : List Decl}
    (hroots : List.Forall₂ R roots roots') : List.Forall₂ (InterfaceUse.Alike R)
      (v.interfacesAbove roots) (v'.interfacesAbove roots') := by
  unfold View.interfacesAbove
  rw [hv.classCount, ← hroots.length_eq]
  exact hv.interfaceWalk _ _ hroots

theorem implementsInterface (hv : Alike R v v') (hd : R d d') (name : String) :
    v'.implementsInterface d' name = v.implementsInterface d name := by
  obtain ⟨hmembers, hcomplete⟩ := hv.superclassChain hd
  have huses := hv.interfacesAbove (.cons hd hmembers)
  have hnamed := any_of_forall₂ huses (f := fun use => use.type.baseName == name)
    (g := fun use => use.type.baseName == name) fun _ _ h => by rw [h.type]
  have hknown := all_of_forall₂ huses (f := fun use => use.target.isSome)
    (g := fun use => use.target.isSome) fun _ _ h => isSome_of_rel h.target
  unfold View.implementsInterface
  dsimp only
  rw [hcomplete, hnamed, hknown]

theorem extendsOrImplements (hv : Alike R v v') (hd : R d d') (name : String) :
    v'.extendsOrImplements d' name = v.extendsOrImplements d name := by
  unfold View.extendsOrImplements
  rw [hv.extendsClass hd, hv.implementsInterface hd]

/-! ## Members of supertypes -/

theorem searchSupertypes (hv : Alike R v v') (hd : R d d') (superclasses interfaces : Bool)
    {S : Decl → Decl → Prop} {search search' : Decl → Option Decl}
    (hsearch : ∀ d d', R d d' → Option.Rel S (search d) (search' d')) :
    Option.Rel S (v.searchSupertypes d superclasses interfaces search)
      (v'.searchSupertypes d' superclasses interfaces search') := by
  have hchain : List.Forall₂ R (if superclasses then (v.superclassChain d).members else [])
      (if superclasses then (v'.superclassChain d').members else []) := by
    cases superclasses with
    | true => exact (hv.superclassChain hd).1
    | false => exact .nil
  unfold View.searchSupertypes
  refine rel_or (findSome?_rel hchain hsearch) ?_
  cases interfaces with
  | true =>
    exact findSome?_rel (hv.interfacesAbove (.cons hd hchain)) fun _ _ huse =>
      rel_bind huse.target hsearch
  | false => exact .none

end View.Alike

end ApiSurface
