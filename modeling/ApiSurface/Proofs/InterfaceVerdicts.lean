import ApiSurface.Proofs.Supertypes

/-! # Verdicts on interfaces

Whether a class implements an interface is decided on two walks, one up the superclasses and one along the
interfaces above all of them. The bounds that the walks are given are no part of the answer: each of them
comes to its end before, also where the references form cycles. So the verdict is what the classes that can
be reached say, and it is left open exactly if they do not name the interface and one of their references
leads to an unknown class. -/
namespace ApiSurface

namespace View

variable {v : View} {d : Decl} {name : String} {seen : List String} {queue : List Decl} {bound : Nat}

/-! ## Runs without a bound -/

/-- A run up the superclasses of a class, past the names that were seen before, which ends with this chain.
Nothing bounds its length. -/
inductive ChainRun (v : View) : List String → Decl → SuperclassChain → Prop
  | top {seen : List String} {d : Decl} : d.superclass? = none → ChainRun v seen d ⟨[], true⟩
  | unknown {seen : List String} {d : Decl} {type : TypeRef} : d.superclass? = some type →
      v.resolve type = none → ChainRun v seen d ⟨[], type.baseName == TypeRef.objectName⟩
  | repeated {seen : List String} {d above : Decl} {type : TypeRef} : d.superclass? = some type →
      v.resolve type = some above → above.name ∈ seen → ChainRun v seen d ⟨[], true⟩
  | next {seen : List String} {d above : Decl} {type : TypeRef} {chain : SuperclassChain} :
      d.superclass? = some type → v.resolve type = some above → above.name ∉ seen →
      ChainRun v (above.name :: seen) above chain →
      ChainRun v seen d { chain with members := above :: chain.members }

/-- A run along interfaces in breadth that has a queue of classes before it and ends with these references.
Nothing bounds its length. -/
inductive InterfaceRun (v : View) : List String → List Decl → List InterfaceUse → Prop
  | done {seen : List String} : InterfaceRun v seen [] []
  | expand {seen : List String} {current : Decl} {queue : List Decl} {uses : List InterfaceUse} :
      InterfaceRun v ((v.interfaceUses current).foldl enqueue (seen, queue)).1
        ((v.interfaceUses current).foldl enqueue (seen, queue)).2 uses →
      InterfaceRun v seen (current :: queue) (v.interfaceUses current ++ uses)

/-- A walk up the superclasses that may take a step for each class not seen yet ends by itself. -/
theorem Sound.chainRun (hv : v.Sound) (hbound : v.unmet seen < bound) :
    v.ChainRun seen d (v.superclassesAbove bound seen d) := by
  induction bound generalizing seen d with
  | zero => omega
  | succ bound ih =>
    unfold superclassesAbove
    cases hsuper : d.superclass? with
    | none => exact .top hsuper
    | some type =>
      dsimp only
      cases hresolve : v.resolve type with
      | none => exact .unknown hsuper hresolve
      | some above =>
        dsimp only
        split
        · next hmet => exact .repeated hsuper hresolve (List.contains_iff_mem.mp hmet)
        · next hnew =>
          have hlt := hv.unmet_cons_lt (hv.knows hresolve) (Bool.eq_false_iff.mpr hnew)
          exact .next hsuper hresolve (fun hmem => hnew (List.contains_iff_mem.mpr hmem)) (ih (by omega))

theorem Sound.chainRun_superclassChain (hv : v.Sound) (d : Decl) :
    v.ChainRun [d.name] d (v.superclassChain d) :=
  hv.chainRun (Nat.lt_succ_of_le (v.unmet_le _))

/-- A walk along interfaces that may take a step for each class in its queue and for each one not seen yet
ends by itself. -/
theorem Sound.interfaceRun (hv : v.Sound) (hbound : queue.length + v.unmet seen < bound) :
    v.InterfaceRun seen queue (v.interfaceWalk bound seen queue) := by
  induction bound generalizing seen queue with
  | zero => omega
  | succ bound ih =>
    cases queue with
    | nil => exact .done
    | cons current queue =>
      have hle := hv.foldl_enqueue_le (seen, queue)
        fun use huse x hx => hv.knows_of_mem_interfaceUses (d := current) huse hx
      rw [List.length_cons] at hbound
      exact .expand (ih (by dsimp only at hle; omega))

theorem Sound.interfaceRun_interfacesAbove (hv : v.Sound) (roots : List Decl) :
    v.InterfaceRun [] roots (v.interfacesAbove roots) := by
  have hle := v.unmet_le []
  exact hv.interfaceRun (by omega)

/-! ## The verdict -/

/-- A class, a superclass or an interface above them names the interface. -/
def NamesInterface (v : View) (d : Decl) (name : String) : Prop :=
  ∃ x, v.Inherits d x ∧ ∃ type ∈ x.interfaces, type.baseName = name

/-- The view knows all that a class, its superclasses and the interfaces above them refer to: the chain of
superclasses is complete, and every reference to an interface resolves. -/
def KnowsSupertypes (v : View) (d : Decl) : Prop :=
  (v.superclassChain d).isComplete = true ∧
    ∀ x, v.Inherits d x → ∀ type ∈ x.interfaces, (v.resolve type).isSome

theorem Sound.implementsInterface_eq_true_iff (hv : v.Sound) (hname : name ≠ TypeRef.objectName) :
    v.implementsInterface d name = some true ↔ v.NamesInterface d name := by
  rw [hv.implementsInterface_eq_true, or_iff_right hname]
  rfl

theorem Sound.implementsInterface_eq_false_iff (hv : v.Sound) (hname : name ≠ TypeRef.objectName) :
    v.implementsInterface d name = some false ↔ ¬v.NamesInterface d name ∧ v.KnowsSupertypes d := by
  rw [hv.implementsInterface_eq_false, and_iff_right hname]
  constructor
  · rintro ⟨hcomplete, hall⟩
    refine ⟨?_, hcomplete, fun x hx type htype => (hall x hx type htype).2⟩
    rintro ⟨x, hx, type, htype, hnamed⟩
    exact (hall x hx type htype).1 hnamed
  · rintro ⟨hnot, hcomplete, hknown⟩
    refine ⟨hcomplete, fun x hx type htype => ⟨fun hnamed => hnot ?_, hknown x hx type htype⟩⟩
    exact ⟨x, hx, type, htype, hnamed⟩

/-- A class implements an interface iff one of the classes that can be reached names it. If none does, the
answer is no where all of their supertypes are known, and open otherwise. Both walks that lead to the
answer end by themselves. -/
theorem implementsInterface_exact (hv : ∀ s ∈ v.surfaces, s.Built) (d : Decl) {name : String}
    (hname : name ≠ TypeRef.objectName) :
    (v.implementsInterface d name = some true ↔ v.NamesInterface d name) ∧
      (v.implementsInterface d name = some false ↔
        ¬v.NamesInterface d name ∧ v.KnowsSupertypes d) ∧
      (v.implementsInterface d name = none ↔
        ¬v.NamesInterface d name ∧ ¬v.KnowsSupertypes d) ∧
      v.ChainRun [d.name] d (v.superclassChain d) ∧
      v.InterfaceRun [] (d :: (v.superclassChain d).members)
        (v.interfacesAbove (d :: (v.superclassChain d).members)) := by
  have hsound := sound_of_built hv
  have htrue := hsound.implementsInterface_eq_true_iff (d := d) hname
  have hfalse := hsound.implementsInterface_eq_false_iff (d := d) hname
  refine ⟨htrue, hfalse, ?_, hsound.chainRun_superclassChain d, hsound.interfaceRun_interfacesAbove _⟩
  constructor
  · intro hopen
    have hnot : ¬v.NamesInterface d name := fun hnamed => nomatch hopen.symm.trans (htrue.mpr hnamed)
    exact ⟨hnot, fun hknown => nomatch hopen.symm.trans (hfalse.mpr ⟨hnot, hknown⟩)⟩
  · rintro ⟨hnot, hunknown⟩
    cases hverdict : v.implementsInterface d name with
    | none => rfl
    | some verdict =>
      cases verdict with
      | true => exact (hnot (htrue.mp hverdict)).elim
      | false => exact (hunknown (hfalse.mp hverdict).2).elim

end View

def Recipe.ofClasses (classes : List ClassSpec) : Recipe :=
  { calls := [.packageSpec { name := "p", classes }] }

/-- A class and its superclass, each of which claims to extend the other one. The class names an unknown
interface, the superclass one that leads to an interface of another surface and back. -/
def View.roundabout : View :=
  { primary := Recipe.ofClasses [
      { name := "p.A", superclass := some ⟨"p.B"⟩, interfaces := [⟨"q.Unknown"⟩] },
      { name := "p.B", superclass := some ⟨"p.A"⟩, interfaces := [⟨"p.I"⟩] },
      { name := "p.I", kind := .interfaceType, interfaces := [⟨"p.J"⟩] }] |>.build 1 "s"
    fallbacks := [Recipe.ofClasses [
      { name := "p.J", kind := .interfaceType, interfaces := [⟨"p.I"⟩] }] |>.build 2 "t"] }

theorem View.forall_built_of_pair {s t : Surface} (hs : s.Built) (ht : t.Built) :
    ∀ x ∈ ({ primary := s, fallbacks := [t] } : View).surfaces, x.Built := by
  intro x hx
  rcases List.mem_cons.mp hx with rfl | hx
  · exact hs
  · rwa [List.mem_singleton.mp hx]

theorem View.implementsInterface_exact_roundabout :
    let v := View.roundabout
    ∃ d, v.findClass? "p.A" = some d ∧ v.implementsInterface d "p.J" = some true ∧
      v.NamesInterface d "p.J" ∧ v.implementsInterface d "q.Other" = none ∧
      ¬v.NamesInterface d "q.Other" ∧ ¬v.KnowsSupertypes d := by
  intro v
  have hv : ∀ s ∈ v.surfaces, s.Built := forall_built_of_pair ⟨_, _, _, rfl⟩ ⟨_, _, _, rfl⟩
  have hfound : (v.findClass? "p.A").any fun d => v.implementsInterface d "p.J" = some true ∧
      v.implementsInterface d "q.Other" = none := by decide +kernel
  obtain ⟨d, hd, hverdicts⟩ := (Option.any_eq_true ..).mp hfound
  obtain ⟨hnamed, hopen⟩ := of_decide_eq_true hverdicts
  refine ⟨d, hd, hnamed, ?_, hopen, ?_⟩
  · exact (implementsInterface_exact hv d (by decide)).1.mp hnamed
  · exact (implementsInterface_exact hv d (by decide)).2.2.1.mp hopen

end ApiSurface
