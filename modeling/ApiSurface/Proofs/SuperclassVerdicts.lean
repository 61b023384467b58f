import ApiSurface.Proofs.Supertypes

/-! # Two walks over the superclasses

Whether a class extends another one is decided on a walk of its own, which stops at the first class that
names the other one. The walk that collects the superclasses goes along the same references and stops at
the same places, but the two read one of them differently. An unknown root of all hierarchies ends a chain
of superclasses as a complete one, while the question of what a class extends is left open there. -/
namespace ApiSurface

namespace Decl

def namesSuperclass (d : Decl) (name : String) : Bool :=
  d.superclass?.any fun type => type.baseName == name

end Decl

namespace View

variable {v : View} {d : Decl} {name : String} {seen : List String} {bound : Nat}

/-- The verdict on extending the class called `name` that can be read off the chain of superclasses: yes
if it is the root, the class itself or named along the chain, and otherwise no unless the chain may be
longer. -/
def chainVerdict (v : View) (d : Decl) (name : String) : Option Bool :=
  if name = TypeRef.objectName ∨ d.name = name ∨
      ∃ c ∈ d :: (v.superclassChain d).members, c.namesSuperclass name then some true
  else if (v.superclassChain d).isComplete then some false
  else none

/-- Whether a class refers to the root of all hierarchies as its superclass, and the view does not know
the root. -/
def endsAtUnknownRoot (v : View) (d : Decl) : Bool :=
  d.superclass?.any fun type => type.baseName == TypeRef.objectName && (v.resolve type).isNone

/-- Whether a class or one of its superclasses refers to the root of all hierarchies, unknown to the
view. -/
def hasUnknownRoot (v : View) (d : Decl) : Bool :=
  (d :: (v.superclassChain d).members).any v.endsAtUnknownRoot

/-- The part of the verdict that depends on the classes of a chain. -/
def verdictOf (classes : List Decl) (isComplete : Bool) (name : String) : Option Bool :=
  if classes.any fun c => c.namesSuperclass name then some true
  else if isComplete then some false
  else none

/-! ## One step of either walk -/

theorem namesSuperclass_of_none (h : d.superclass? = none) : d.namesSuperclass name = false := by
  rw [Decl.namesSuperclass, h, Option.any_none]

theorem namesSuperclass_of_some {type : TypeRef} (h : d.superclass? = some type) :
    d.namesSuperclass name = (type.baseName == name) := by
  rw [Decl.namesSuperclass, h, Option.any_some]

theorem endsAtUnknownRoot_of_none (h : d.superclass? = none) : v.endsAtUnknownRoot d = false := by
  rw [endsAtUnknownRoot, h, Option.any_none]

theorem endsAtUnknownRoot_of_some {type : TypeRef} (h : d.superclass? = some type) :
    v.endsAtUnknownRoot d = (type.baseName == TypeRef.objectName && (v.resolve type).isNone) := by
  rw [endsAtUnknownRoot, h, Option.any_some]

theorem verdictOf_cons (classes : List Decl) (isComplete : Bool) :
    verdictOf (d :: classes) isComplete name =
      if d.namesSuperclass name then some true else verdictOf classes isComplete name := by
  unfold verdictOf
  rw [List.any_cons]
  cases d.namesSuperclass name with
  | true => rfl
  | false => rfl

theorem verdictOf_and_not (classes : List Decl) (isComplete isOpen : Bool) :
    verdictOf classes (isComplete && !isOpen) name =
      if isOpen ∧ verdictOf classes isComplete name = some false then none
      else verdictOf classes isComplete name := by
  unfold verdictOf
  cases classes.any fun c => c.namesSuperclass name <;> cases isComplete <;> cases isOpen <;> rfl

theorem chainVerdict_of_own (h : name = TypeRef.objectName ∨ d.name = name) :
    v.chainVerdict d name = some true :=
  if_pos (or_assoc.mp (.inl h))

theorem chainVerdict_of_not_own (h : ¬(name = TypeRef.objectName ∨ d.name = name)) :
    v.chainVerdict d name =
      verdictOf (d :: (v.superclassChain d).members) (v.superclassChain d).isComplete name := by
  rw [not_or] at h
  unfold chainVerdict verdictOf
  simp only [h.1, h.2, false_or, List.any_eq_true]

/-! ## The walks side by side -/

/-- With enough steps ahead, the walk that looks for a name answers what the superclasses that the other
walk collects from there tell, if a chain that ends at the unknown root counts as one left open. -/
theorem Sound.extendsAbove_eq (hv : v.Sound) (hbound : v.unmet seen < bound) :
    v.extendsAbove name bound seen d =
      let chain := v.superclassesAbove bound seen d
      verdictOf (d :: chain.members)
        (chain.isComplete && !(d :: chain.members).any v.endsAtUnknownRoot) name := by
  induction bound generalizing seen d with
  | zero => omega
  | succ bound ih =>
    unfold extendsAbove superclassesAbove
    dsimp only
    rw [verdictOf_cons]
    cases hsuper : d.superclass? with
    | none =>
      rw [namesSuperclass_of_none hsuper]
      simp only [List.any_cons, endsAtUnknownRoot_of_none hsuper]
      rfl
    | some type =>
      rw [namesSuperclass_of_some hsuper]
      simp only [List.any_cons, endsAtUnknownRoot_of_some hsuper, beq_iff_eq]
      by_cases hname : type.baseName = name
      · rw [if_pos hname, if_pos hname]
      · rw [if_neg hname, if_neg hname]
        cases hresolve : v.resolve type with
        | none =>
          -- the one place where the walks differ: complete for one of them if it is the root
          dsimp only
          cases hroot : type.baseName == TypeRef.objectName with
          | true => rfl
          | false => rfl
        | some above =>
          dsimp only
          split
          · simp only [Option.isNone_some, Bool.and_false, List.any_nil, Bool.or_self]
            rfl
          · next hnew =>
            have hlt := hv.unmet_cons_lt (hv.knows hresolve) (Bool.eq_false_iff.mpr hnew)
            rw [ih (by omega)]
            simp only [Option.isNone_some, Bool.and_false, Bool.false_or, List.any_cons]

/-- A class extends what its chain of superclasses tells, except where the chain says no because it
counts a class above which there is only the unknown root as the last one. -/
theorem Sound.extendsClass_eq (hv : v.Sound) (d : Decl) (name : String) :
    v.extendsClass d name =
      if v.hasUnknownRoot d ∧ v.chainVerdict d name = some false then none
      else v.chainVerdict d name := by
  unfold extendsClass
  by_cases hown : name = TypeRef.objectName ∨ d.name = name
  · rw [if_pos hown, chainVerdict_of_own hown, if_neg fun h => nomatch h.2]
  · have hle := v.unmet_le [d.name]
    rw [if_neg hown, chainVerdict_of_not_own hown, hv.extendsAbove_eq (by omega)]
    exact verdictOf_and_not _ _ _

/-- The two walks agree on a class and a name unless the chain is complete, does not name the class and
ends at the unknown root. Then the question stays open. -/
theorem extendsClass_eq_chainVerdict_iff (hv : ∀ s ∈ v.surfaces, s.Built) (d : Decl) (name : String) :
    (v.extendsClass d name = v.chainVerdict d name ↔
        ¬(v.hasUnknownRoot d ∧ v.chainVerdict d name = some false)) ∧
      (v.hasUnknownRoot d ∧ v.chainVerdict d name = some false → v.extendsClass d name = none) := by
  rw [(sound_of_built hv).extendsClass_eq]
  by_cases hopen : v.hasUnknownRoot d ∧ v.chainVerdict d name = some false
  · rw [if_pos hopen]
    refine ⟨⟨fun h => ?_, fun h => (h hopen).elim⟩, fun _ => rfl⟩
    rw [hopen.2] at h
    cases h
  · rw [if_neg hopen]
    exact ⟨⟨fun _ => hopen, fun _ => rfl⟩, fun h => (hopen h).elim⟩

theorem Sound.extendsClass_ne_false (hv : v.Sound) (h : v.hasUnknownRoot d) :
    v.extendsClass d name ≠ some false := by
  rw [hv.extendsClass_eq]
  split
  · exact nofun
  · next hopen => exact fun hverdict => hopen ⟨h, hverdict⟩

end View

/-- No change of its superclass is ever reported for a class that ends at the unknown root. -/
theorem Rules.Matched.superclass_of_hasUnknownRoot {context : RuleContext} {old new : Decl}
    (hv : context.newView.Sound) (h : context.newView.hasUnknownRoot new) :
    Rules.Matched.superclass context old new = [] := by
  unfold Rules.Matched.superclass
  split
  · rfl
  · rw [beq_false_of_ne (hv.extendsClass_ne_false h)]
    rfl

/-- Classes of one package, each with the superclass that is given for it. -/
def Recipe.extending (classes : List (String × String)) : Recipe :=
  { calls := [.packageSpec { name := "p", classes := classes.map fun (name, superclass) =>
      { name, modifiers := .ofVisibility .publicAccess, superclass := some ⟨superclass⟩ } }] }

namespace View

theorem extendsClass_eq_chainVerdict_iff_cycle :
    let v := (Recipe.extending [("p.A", "p.B"), ("p.B", "p.C"), ("p.C", "p.B")] |>.build 1 "s").alone
    ∃ d, v.findClass? "p.A" = some d ∧ v.chainVerdict d "p.C" = some true ∧
      v.chainVerdict d "q.Other" = some false ∧ ¬v.hasUnknownRoot d ∧
      v.extendsClass d "q.Other" = v.chainVerdict d "q.Other" := by
  intro v
  have hfound : (v.findClass? "p.A").any fun d => v.chainVerdict d "p.C" = some true ∧
      v.chainVerdict d "q.Other" = some false ∧ ¬v.hasUnknownRoot d := by decide +kernel
  obtain ⟨d, hd, hverdicts⟩ := (Option.any_eq_true ..).mp hfound
  obtain ⟨hnamed, hunnamed, hroot⟩ := of_decide_eq_true hverdicts
  refine ⟨d, hd, hnamed, hunnamed, hroot, ?_⟩
  refine (extendsClass_eq_chainVerdict_iff ?_ _ _).1.mpr fun h => hroot h.1
  exact fun s hs => List.mem_singleton.mp hs ▸ ⟨_, _, _, rfl⟩

/-- A class that says it extends the root: its chain is complete and does not name `p.Base`, and whether
it extends `p.Base` stays open. -/
theorem extendsClass_explicitRoot :
    let v := (Recipe.extending [("p.C", "java.lang.Object")] |>.build 1 "s").alone
    ∃ d, v.findClass? "p.C" = some d ∧ (v.superclassChain d).isComplete = true ∧
      v.chainVerdict d "p.Base" = some false ∧ v.extendsClass d "p.Base" = none := by
  intro v
  have hfound : (v.findClass? "p.C").any fun d => (v.superclassChain d).isComplete = true ∧
      v.chainVerdict d "p.Base" = some false ∧ v.extendsClass d "p.Base" = none := by decide +kernel
  obtain ⟨d, hd, hverdicts⟩ := (Option.any_eq_true ..).mp hfound
  exact ⟨d, hd, of_decide_eq_true hverdicts⟩

end View

end ApiSurface
