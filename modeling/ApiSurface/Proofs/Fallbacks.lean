import ApiSurface.Check
import ApiSurface.Proofs.Arrangement
import ApiSurface.Proofs.Reflexivity

/-! # Fallbacks fill gaps

A view asks its fallbacks only for names that its primary surface does not define. All lookups of a check
start from declarations of a primary surface and go on along the types that these mention. So fallbacks
that define none of the mentioned names that the primary surface lacks are never reached, whatever else
they define. They do raise the bounds of all walks, but every walk ends before its bound does. -/
namespace ApiSurface

open Arena Surface Comparison

/-- The types that a declaration mentions where a check follows them: supertypes, exceptions and the
type of the result. -/
def Decl.mentions (d : Decl) : List TypeRef :=
  d.superclass?.toList ++ d.interfaces ++
    (d.asMethod?.map fun info => info.throws ++ info.returnType.toList).getD []

/-- The surfaces define none of the classes that declarations of `s` mention and `s` does not define. -/
def Surface.NothingToFill (s : Surface) (fallbacks : List Surface) : Prop :=
  ∀ d, s.Declares d → ∀ type ∈ d.mentions, s.findClass? type.baseName = none →
    ∀ f ∈ fallbacks, f.findClass? type.baseName = none

theorem Surface.nothingToFill_iff {s : Surface} {fallbacks : List Surface} :
    s.NothingToFill fallbacks ↔ ∀ d ∈ s.allDecls, ∀ type ∈ d.mentions,
      (s.findClass? type.baseName).isNone → ∀ f ∈ fallbacks, (f.findClass? type.baseName).isNone := by
  unfold NothingToFill
  simp only [mem_allDecls, Option.isNone_iff_eq_none]

/-- The view finds what declarations of `s` mention in `s` or not at all, and knows all its classes. -/
structure View.StaysIn (v : View) (s : Surface) : Prop where
  primary : v.primary = s
  resolve : ∀ d, s.Declares d → ∀ type ∈ d.mentions, v.resolve type = s.findClass? type.baseName
  bound : s.classes.size ≤ v.classCount

/-- The target of the reference is a class of the surface, if the view knows it. -/
def InterfaceUse.IsIn (use : InterfaceUse) (s : Surface) : Prop :=
  ∀ target, use.target = some target → s.Declares target ∧ target.asClass?.isSome

theorem Surface.findClass?_eq_some {s : Surface} {d : Decl} (hs : s.WellFormed) {name : String} :
    s.findClass? name = some d ↔ s.Declares d ∧ d.asClass?.isSome ∧ d.name = name := by
  unfold findClass?
  constructor
  · intro h
    obtain ⟨id, hid, hd⟩ := Option.bind_eq_some_iff.mp h
    obtain ⟨d', hd', hc, hname⟩ := (classes_iff hs).mp hid
    rw [hd] at hd'
    cases hd'
    obtain ⟨_, rfl, _⟩ := decl?_eq_some hd
    exact ⟨hd, hc, hname⟩
  · rintro ⟨hd, hc, rfl⟩
    rw [(classes_iff hs).mpr ⟨d, hd, hc, rfl⟩]
    exact hd

namespace View

/-! ## Views that stay in a surface -/

theorem findClass?_extend (s : Surface) (fallbacks : List Surface) (name : String) :
    (s.alone.extend fallbacks).findClass? name =
      (s.findClass? name).or (fallbacks.findSome? (·.findClass? name)) := by
  change (s :: ([] ++ fallbacks)).findSome? (·.findClass? name) = _
  rw [List.nil_append, List.findSome?_cons]
  cases s.findClass? name <;> rfl

theorem findClass?_alone (s : Surface) (name : String) : s.alone.findClass? name = s.findClass? name :=
  List.findSome?_singleton

theorem StaysIn.of_nothingToFill {s : Surface} {fallbacks : List Surface}
    (h : s.NothingToFill fallbacks) : (s.alone.extend fallbacks).StaysIn s where
  primary := rfl
  resolve d hd type htype := by
    change (s.alone.extend fallbacks).findClass? type.baseName = _
    rw [findClass?_extend]
    cases hfind : s.findClass? type.baseName with
    | some above => rfl
    | none =>
      rw [Option.none_or, List.findSome?_eq_none_iff]
      exact h d hd type htype hfind
  bound := by
    unfold classCount surfaces
    exact Nat.le_add_right _ _

theorem StaysIn.alone (s : Surface) : s.alone.StaysIn s :=
  StaysIn.of_nothingToFill fun _ _ _ _ _ _ h => by cases h

/-! ## Names that a walk has not met -/

/-- The number of classes whose names are not among the seen ones. -/
def unseen (s : Surface) (seen : List String) : Nat :=
  s.classes.keys.countP fun name => !seen.contains name

theorem countP_unseen_cons_le (names seen : List String) (name : String) :
    (names.countP fun n => !(name :: seen).contains n) ≤ names.countP fun n => !seen.contains n := by
  refine List.countP_mono_left fun n _ h => ?_
  simp only [List.contains_cons, Bool.not_or, Bool.and_eq_true] at h
  exact h.2

theorem countP_unseen_cons_lt {names seen : List String} {name : String} (h : name ∈ names)
    (hnew : seen.contains name = false) :
    (names.countP fun n => !(name :: seen).contains n) < names.countP fun n => !seen.contains n := by
  induction names with
  | nil => cases h
  | cons first rest ih =>
    have hle := countP_unseen_cons_le rest seen name
    rw [List.countP_cons, List.countP_cons]
    by_cases hfirst : first = name
    · subst hfirst
      have hmet : (first :: seen).contains first = true := by simp
      rw [hmet, hnew]
      exact Nat.lt_succ_of_le hle
    · have hrest := ih ((List.mem_cons.mp h).resolve_left (Ne.symm hfirst))
      have hsame : (name :: seen).contains first = seen.contains first := by
        simp [hfirst]
      rw [hsame]
      omega

variable {v w : View} {s : Surface} {d : Decl} {seen : List String}

theorem mem_keys_of_declares (hs : s.WellFormed) (hd : s.Declares d) (hc : d.asClass?.isSome) :
    d.name ∈ s.classes.keys := by
  rw [Std.TreeMap.mem_keys, Std.TreeMap.mem_iff_isSome_getElem?, (classes_iff hs).mpr ⟨d, hd, hc, rfl⟩]
  rfl

theorem unseen_cons_lt (hs : s.WellFormed) (hd : s.Declares d) (hc : d.asClass?.isSome)
    (hnew : seen.contains d.name = false) : unseen s (d.name :: seen) < unseen s seen :=
  countP_unseen_cons_lt (mem_keys_of_declares hs hd hc) hnew

theorem unseen_le (s : Surface) (seen : List String) : unseen s seen ≤ s.classes.size := by
  unfold unseen
  rw [← Std.TreeMap.length_keys]
  exact List.countP_le_length

/-! ## Superclasses -/

theorem mem_mentions_of_superclass? {type : TypeRef} (h : d.superclass? = some type) :
    type ∈ d.mentions := by
  unfold Decl.mentions
  simp [h]

theorem mem_mentions_of_interfaces {type : TypeRef} (h : type ∈ d.interfaces) :
    type ∈ d.mentions := by
  unfold Decl.mentions
  simp [h]

/-- What a view finds for a mentioned type is a class of the surface. -/
theorem StaysIn.declares_of_resolve (hv : v.StaysIn s) (hs : s.WellFormed) (hd : s.Declares d)
    {type : TypeRef} (htype : type ∈ d.mentions) {above : Decl} (h : v.resolve type = some above) :
    s.Declares above ∧ above.asClass?.isSome := by
  rw [hv.resolve d hd type htype] at h
  obtain ⟨hda, hc, _⟩ := (findClass?_eq_some hs).mp h
  exact ⟨hda, hc⟩

/-- Two views that stay in a surface agree on the superclass of a declaration. -/
theorem StaysIn.superclass_cases (hv : v.StaysIn s) (hw : w.StaysIn s) (hs : s.WellFormed)
    (hd : s.Declares d) : d.superclass? = none ∨
      (∃ type, d.superclass? = some type ∧ v.resolve type = none ∧ w.resolve type = none) ∨
      ∃ type above, d.superclass? = some type ∧ v.resolve type = some above ∧
        w.resolve type = some above ∧ s.Declares above ∧ above.asClass?.isSome := by
  cases hsuper : d.superclass? with
  | none => exact .inl rfl
  | some type =>
    have htype := mem_mentions_of_superclass? hsuper
    have hresolve := hv.resolve d hd type htype
    have hresolve' := hw.resolve d hd type htype
    cases hfind : s.findClass? type.baseName with
    | none => exact .inr (.inl ⟨type, rfl, hresolve.trans hfind, hresolve'.trans hfind⟩)
    | some above =>
      obtain ⟨hda, hc, _⟩ := (findClass?_eq_some hs).mp hfind
      exact .inr (.inr ⟨type, above, rfl, hresolve.trans hfind, hresolve'.trans hfind, hda, hc⟩)

/-- Two views that stay in a surface see the same superclasses, whatever their bounds are, as long as
these exceed the number of classes not met yet. -/
theorem superclassesAbove_eq (hv : v.StaysIn s) (hw : w.StaysIn s) (hs : s.WellFormed)
    (hd : s.Declares d) {m n : Nat} (hm : unseen s seen < m) (hn : unseen s seen < n) :
    v.superclassesAbove m seen d = w.superclassesAbove n seen d := by
  induction m generalizing n seen d with
  | zero => omega
  | succ m ih =>
    cases n with
    | zero => omega
    | succ n =>
      unfold superclassesAbove
      rcases hv.superclass_cases hw hs hd with hnone | ⟨type, hsuper, hfind, hfind'⟩ |
        ⟨type, above, hsuper, hfind, hfind', hda, hc⟩
      · simp only [hnone]
      · simp only [hsuper, hfind, hfind']
      · simp only [hsuper, hfind, hfind']
        by_cases hseen : seen.contains above.name = true
        · simp only [if_pos hseen]
        · have hlt := unseen_cons_lt hs hda hc (Bool.eq_false_iff.mpr hseen)
          have hrest : v.superclassesAbove m (above.name :: seen) above =
              w.superclassesAbove n (above.name :: seen) above := ih hda (by omega) (by omega)
          simp only [hrest]

theorem superclassChain_eq (hv : v.StaysIn s) (hw : w.StaysIn s) (hs : s.WellFormed)
    (hd : s.Declares d) : v.superclassChain d = w.superclassChain d := by
  have hle := unseen_le s [d.name]
  have hvb := hv.bound
  have hwb := hw.bound
  exact superclassesAbove_eq hv hw hs hd (by omega) (by omega)

theorem declares_of_mem_superclassesAbove (hv : v.StaysIn s) (hs : s.WellFormed) (hd : s.Declares d)
    {bound : Nat} {x : Decl} (hx : x ∈ (v.superclassesAbove bound seen d).members) :
    s.Declares x := by
  induction bound generalizing seen d with
  | zero => cases hx
  | succ bound ih =>
    unfold superclassesAbove at hx
    cases hsuper : d.superclass? with
    | none => simp [hsuper] at hx
    | some type =>
      simp only [hsuper] at hx
      cases hresolve : v.resolve type with
      | none => simp [hresolve] at hx
      | some above =>
        obtain ⟨hda, _⟩ := hv.declares_of_resolve hs hd (mem_mentions_of_superclass? hsuper) hresolve
        simp only [hresolve] at hx
        split at hx
        · cases hx
        · rcases List.mem_cons.mp hx with rfl | hx
          · exact hda
          · exact ih hda hx

/-- A walk along the superclasses decides the same by either view. -/
theorem extendsAbove_eq (hv : v.StaysIn s) (hw : w.StaysIn s) (hs : s.WellFormed) (name : String)
    (hd : s.Declares d) {m n : Nat} (hm : unseen s seen < m) (hn : unseen s seen < n) :
    v.extendsAbove name m seen d = w.extendsAbove name n seen d := by
  induction m generalizing n seen d with
  | zero => omega
  | succ m ih =>
    cases n with
    | zero => omega
    | succ n =>
      unfold extendsAbove
      rcases hv.superclass_cases hw hs hd with hnone | ⟨type, hsuper, hfind, hfind'⟩ |
        ⟨type, above, hsuper, hfind, hfind', hda, hc⟩
      · simp only [hnone]
      · simp only [hsuper, hfind, hfind']
      · simp only [hsuper, hfind, hfind']
        by_cases hseen : seen.contains above.name = true
        · simp only [if_pos hseen]
        · have hlt := unseen_cons_lt hs hda hc (Bool.eq_false_iff.mpr hseen)
          have hrest : v.extendsAbove name m (above.name :: seen) above =
              w.extendsAbove name n (above.name :: seen) above := ih hda (by omega) (by omega)
          simp only [hrest]

theorem extendsClass_eq (hv : v.StaysIn s) (hw : w.StaysIn s) (hs : s.WellFormed) (hd : s.Declares d)
    (name : String) : v.extendsClass d name = w.extendsClass d name := by
  have hle := unseen_le s [d.name]
  have hvb := hv.bound
  have hwb := hw.bound
  unfold extendsClass
  rw [extendsAbove_eq hv hw hs name hd (n := w.classCount + 1) (by omega) (by omega)]

/-! ## Interfaces -/

theorem interfaceUses_eq (hv : v.StaysIn s) (hw : w.StaysIn s) (hd : s.Declares d) :
    v.interfaceUses d = w.interfaceUses d := by
  refine List.map_congr_left fun type htype => ?_
  have hmention := mem_mentions_of_interfaces htype
  rw [hv.resolve d hd type hmention, hw.resolve d hd type hmention]

theorem isIn_of_mem_interfaceUses (hv : v.StaysIn s) (hs : s.WellFormed) (hd : s.Declares d)
    {use : InterfaceUse} (h : use ∈ v.interfaceUses d) : use.IsIn s := by
  obtain ⟨type, htype, rfl⟩ := List.mem_map.mp h
  exact fun target htarget =>
    hv.declares_of_resolve hs hd (mem_mentions_of_interfaces htype) htarget

/-- What a queue gains, the names that were not met lose. -/
theorem foldl_enqueue (hs : s.WellFormed) {uses : List InterfaceUse} (huses : ∀ use ∈ uses, use.IsIn s)
    {state : List String × List Decl} (hstate : ∀ x ∈ state.2, s.Declares x) :
    (∀ x ∈ (uses.foldl enqueue state).2, s.Declares x) ∧
      (uses.foldl enqueue state).2.length + unseen s (uses.foldl enqueue state).1 ≤
        state.2.length + unseen s state.1 := by
  induction uses generalizing state with
  | nil => exact ⟨hstate, Nat.le_refl _⟩
  | cons use rest ih =>
    have hrest := fun use' h => huses use' (List.mem_cons_of_mem _ h)
    have hstep : (∀ x ∈ (enqueue state use).2, s.Declares x) ∧
        (enqueue state use).2.length + unseen s (enqueue state use).1 ≤
          state.2.length + unseen s state.1 := by
      unfold enqueue
      cases htarget : use.target with
      | none => exact ⟨hstate, Nat.le_refl _⟩
      | some next =>
        obtain ⟨hdn, hc⟩ := huses use List.mem_cons_self next htarget
        by_cases hseen : state.1.contains next.name = true
        · simp only [if_pos hseen]
          exact ⟨hstate, Nat.le_refl _⟩
        · simp only [if_neg hseen]
          refine ⟨fun x hx => ?_, ?_⟩
          · rcases List.mem_append.mp hx with hx | hx
            · exact hstate x hx
            · cases List.mem_singleton.mp hx
              exact hdn
          · have hlt := unseen_cons_lt hs hdn hc (Bool.eq_false_iff.mpr hseen)
            rw [List.length_append, List.length_singleton]
            omega
    obtain ⟨hdeclares, hle⟩ := ih hrest hstep.1
    exact ⟨hdeclares, Nat.le_trans hle hstep.2⟩

/-- Each step of the walk takes a class off the queue, so the walk ends when the queue and the names that
were not met are used up. -/
theorem interfaceWalk_eq (hv : v.StaysIn s) (hw : w.StaysIn s) (hs : s.WellFormed)
    {queue : List Decl} (hqueue : ∀ x ∈ queue, s.Declares x) {m n : Nat}
    (hm : queue.length + unseen s seen < m) (hn : queue.length + unseen s seen < n) :
    v.interfaceWalk m seen queue = w.interfaceWalk n seen queue := by
  induction m generalizing n seen queue with
  | zero => omega
  | succ m ih =>
    cases n with
    | zero => omega
    | succ n =>
      cases queue with
      | nil => rfl
      | cons current queue =>
        have hcurrent := hqueue current List.mem_cons_self
        have huses : ∀ use ∈ w.interfaceUses current, use.IsIn s :=
          fun _ h => isIn_of_mem_interfaceUses hw hs hcurrent h
        have hrest : ∀ x ∈ (seen, queue).2, s.Declares x :=
          fun x hx => hqueue x (List.mem_cons_of_mem _ hx)
        obtain ⟨hdeclares, hle⟩ := foldl_enqueue hs huses hrest
        rw [List.length_cons] at hm hn
        simp only at hle
        unfold interfaceWalk
        rw [interfaceUses_eq hv hw hcurrent]
        exact congrArg _ (ih hdeclares (by omega) (by omega))

theorem interfacesAbove_eq (hv : v.StaysIn s) (hw : w.StaysIn s) (hs : s.WellFormed)
    {roots : List Decl} (hroots : ∀ x ∈ roots, s.Declares x) :
    v.interfacesAbove roots = w.interfacesAbove roots := by
  have hle := unseen_le s []
  have hvb := hv.bound
  have hwb := hw.bound
  exact interfaceWalk_eq hv hw hs hroots (by omega) (by omega)

/-! ## Lookups -/

theorem searchSupertypes_eq (hv : v.StaysIn s) (hw : w.StaysIn s) (hs : s.WellFormed)
    (hd : s.Declares d) (superclasses interfaces : Bool) (search : Decl → Option Decl) :
    v.searchSupertypes d superclasses interfaces search =
      w.searchSupertypes d superclasses interfaces search := by
  have hroots : ∀ chain ⊆ (w.superclassChain d).members, ∀ x ∈ d :: chain, s.Declares x := by
    intro chain hchain x hx
    rcases List.mem_cons.mp hx with rfl | hx
    · exact hd
    · exact declares_of_mem_superclassesAbove hw hs hd (hchain hx)
  unfold searchSupertypes
  rw [superclassChain_eq hv hw hs hd]
  cases superclasses with
  | true => simp only [if_true, interfacesAbove_eq hv hw hs (hroots _ (List.Subset.refl _))]
  | false => simp [interfacesAbove_eq hv hw hs (hroots [] (List.nil_subset _))]

theorem findMethod?_eq (hv : v.StaysIn s) (hw : w.StaysIn s) (hs : s.WellFormed) (hd : s.Declares d)
    (probe : Decl) (superclasses interfaces : Bool) (accept : Decl → Bool) :
    v.findMethod? d probe superclasses interfaces accept =
      w.findMethod? d probe superclasses interfaces accept := by
  unfold findMethod?
  simp only [searchSupertypes_eq hv hw hs hd]

theorem findField?_eq (hv : v.StaysIn s) (hw : w.StaysIn s) (hs : s.WellFormed) (hd : s.Declares d)
    (name : String) (superclasses interfaces : Bool) (accept : Decl → Bool) :
    v.findField? d name superclasses interfaces accept =
      w.findField? d name superclasses interfaces accept := by
  unfold findField?
  simp only [searchSupertypes_eq hv hw hs hd]

theorem implementsInterface_eq (hv : v.StaysIn s) (hw : w.StaysIn s) (hs : s.WellFormed)
    (hd : s.Declares d) (name : String) :
    v.implementsInterface d name = w.implementsInterface d name := by
  have hroots : ∀ x ∈ d :: (w.superclassChain d).members, s.Declares x := by
    intro x hx
    rcases List.mem_cons.mp hx with rfl | hx
    · exact hd
    · exact declares_of_mem_superclassesAbove hw hs hd hx
  unfold implementsInterface
  simp only [superclassChain_eq hv hw hs hd, interfacesAbove_eq hv hw hs hroots]

theorem extendsOrImplements_eq (hv : v.StaysIn s) (hw : w.StaysIn s) (hs : s.WellFormed)
    (hd : s.Declares d) (name : String) :
    v.extendsOrImplements d name = w.extendsOrImplements d name := by
  unfold extendsOrImplements
  rw [extendsClass_eq hv hw hs hd, implementsInterface_eq hv hw hs hd]

end View

/-- Both views of the context stay in their primary surfaces. -/
structure RuleContext.StaysIn (context : RuleContext) (s t : Surface) : Prop where
  old : context.oldView.StaysIn s
  new : context.newView.StaysIn t

/-! ## Rules -/

namespace Rules

variable {v w : View} {s t : Surface} {context other : RuleContext} {d old new : Decl}

theorem throwsAs_eq (hv : v.StaysIn s) (hw : w.StaysIn s) (hs : s.WellFormed) (hd : s.Declares d)
    {type : TypeRef} (htype : type ∈ d.mentions) (name : String) :
    throwsAs v name type = throwsAs w name type := by
  have hbind : (v.resolve type).bind (fun d => v.extendsClass d name) =
      (w.resolve type).bind fun d => w.extendsClass d name := by
    rw [hv.resolve d hd type htype, hw.resolve d hd type htype]
    cases hfind : s.findClass? type.baseName with
    | none => simp only [Option.bind_none]
    | some above =>
      simp only [Option.bind_some]
      exact View.extendsClass_eq hv hw hs ((findClass?_eq_some hs).mp hfind).1 name
  unfold throwsAs
  rw [hbind]

theorem methodThrows_eq (hv : v.StaysIn s) (hw : w.StaysIn s) (hs : s.WellFormed)
    (hd : s.Declares d) (name : String) : methodThrows v d name = methodThrows w d name := by
  unfold methodThrows
  cases hm : d.asMethod? with
  | none => rfl
  | some info =>
    have hverdicts : info.throws.map (throwsAs v name) = info.throws.map (throwsAs w name) := by
      refine List.map_congr_left fun type htype => throwsAs_eq hv hw hs hd ?_ name
      unfold Decl.mentions
      simp [hm, htype]
    simp only [hverdicts]

theorem Matched.withinBounds_eq (hv : v.StaysIn s) (hw : w.StaysIn s) (hs : s.WellFormed)
    (hd : s.Declares d) (bounds : List TypeRef) : withinBounds v d bounds = withinBounds w d bounds := by
  induction bounds with
  | nil => rfl
  | cons bound rest ih =>
    simp only [withinBounds, View.extendsOrImplements_eq hv hw hs hd, ih]

namespace Matched

theorem returnTypeCompatible_eq (hv : context.oldView.StaysIn s) (hw : other.oldView.StaysIn s)
    (hs : s.WellFormed) (ho : s.Declares old) {was : TypeRef} (hwas : was ∈ old.mentions)
    (now : TypeRef) :
    returnTypeCompatible context old new was now = returnTypeCompatible other old new was now := by
  have hbounds : ∀ bounds, ((context.oldView.resolve was).bind fun d =>
      withinBounds context.oldView d bounds) =
        (other.oldView.resolve was).bind fun d => withinBounds other.oldView d bounds := by
    intro bounds
    rw [hv.resolve old ho was hwas, hw.resolve old ho was hwas]
    cases hfind : s.findClass? was.baseName with
    | none => simp only [Option.bind_none]
    | some d =>
      simp only [Option.bind_some]
      exact withinBounds_eq hv hw hs ((findClass?_eq_some hs).mp hfind).1 bounds
  unfold returnTypeCompatible
  simp only [hbounds]

theorem returnType_eq (hv : context.oldView.StaysIn s) (hw : other.oldView.StaysIn s)
    (hs : s.WellFormed) (ho : s.Declares old) :
    returnType context old new = returnType other old new := by
  unfold returnType
  cases hwas : old.asMethod?.bind (·.returnType) with
  | none => rfl
  | some was =>
    have hmention : was ∈ old.mentions := by
      obtain ⟨info, hinfo, hreturn⟩ := Option.bind_eq_some_iff.mp hwas
      unfold Decl.mentions
      simp [hinfo, hreturn]
    cases new.asMethod?.bind (·.returnType) with
    | none => rfl
    | some now => simp only [returnTypeCompatible_eq hv hw hs ho hmention]

theorem classRules_eq (h : context.StaysIn s t) (h' : other.StaysIn s t) (hs : s.WellFormed)
    (ht : t.WellFormed) (ho : s.Declares old) (hn : t.Declares new) :
    classRules context old new = classRules other old new := by
  have hremoved : removedInterfaces context old new = removedInterfaces other old new := by
    unfold removedInterfaces
    simp only [View.implementsInterface_eq h.new h'.new ht hn]
  have hadded : addedInterfaces context old new = addedInterfaces other old new := by
    unfold addedInterfaces
    simp only [View.implementsInterface_eq h.old h'.old hs ho]
  have hsuper : superclass context old new = superclass other old new := by
    unfold superclass
    simp only [View.extendsClass_eq h.new h'.new ht hn]
  unfold classRules
  rw [hremoved, hadded, hsuper]

theorem methodRules_eq (h : context.StaysIn s t) (h' : other.StaysIn s t) (hs : s.WellFormed)
    (ht : t.WellFormed) (ho : s.Declares old) (hn : t.Declares new) :
    methodRules context old new = methodRules other old new := by
  have hexceptions : exceptions context old new = exceptions other old new := by
    unfold exceptions
    cases old.asMethod? with
    | none => rfl
    | some was =>
      cases new.asMethod? with
      | none => rfl
      | some now =>
        simp only [methodThrows_eq h.new h'.new ht hn, methodThrows_eq h.old h'.old hs ho]
  unfold methodRules
  rw [hexceptions, returnType_eq h.old h'.old hs ho]

theorem findings_eq (h : context.StaysIn s t) (h' : other.StaysIn s t) (hs : s.WellFormed)
    (ht : t.WellFormed) (ho : s.Declares old) (hn : t.Declares new) :
    findings context old new = findings other old new := by
  unfold findings
  rw [classRules_eq h h' hs ht ho hn, methodRules_eq h h' hs ht ho hn]

end Matched

namespace Presence

/-- A class that has been matched is found where a view looks first. -/
theorem inheritedObligation_eq (h : context.StaysIn s t) (h' : other.StaysIn s t) (hs : s.WellFormed)
    {c owner : Decl} (hc : s.Declares c) (hclass : c.asClass?.isSome) (hname : c.name = owner.name)
    (method : Decl) :
    inheritedObligation context owner method = inheritedObligation other owner method := by
  have hfound : ∀ {v : View}, v.StaysIn s → v.findClass? owner.name = some c := by
    intro v hv
    unfold View.findClass? View.surfaces
    rw [hv.primary, List.findSome?_cons, (findClass?_eq_some hs).mpr ⟨hc, hclass, hname⟩]
  unfold inheritedObligation
  rw [hfound h.old, hfound h'.old, Option.bind_some, Option.bind_some,
    View.findMethod?_eq h.old h'.old hs hc]

theorem removed_eq (h : context.StaysIn s t) (h' : other.StaysIn s t) (ht : t.WellFormed)
    (hf : context.filter = other.filter) {place : Option Decl}
    (hplace : ∀ d, place = some d → t.Declares d) :
    removed context old place = removed other old place := by
  have hinherited : isStillInherited context old place = isStillInherited other old place := by
    unfold isStillInherited
    cases place with
    | none => rfl
    | some d =>
      simp only [View.findField?_eq h.new h'.new ht (hplace d rfl),
        View.findMethod?_eq h.new h'.new ht (hplace d rfl), hf]
  unfold removed removedKind
  rw [hinherited, hf]

end Presence

end Rules

/-! ## Whole checks -/

namespace Comparison

variable {s t : Surface} {filter : Filter}

/-- The place of a removed declaration is in the new surface. -/
theorem declares_of_place (hs : s.WellFormed) (ht : t.WellFormed) {o d : Decl}
    (h : Event.removed o (some d) ∈ s.compare t filter) : t.Declares d := by
  generalize he : Event.removed o (some d) = e at h
  cases origin_of_mem_compare hs ht h with
  | removedClass hpq =>
    cases he
    exact (hpq.pairSide hs ht .new).declares
  | member hcd hm =>
    subst he
    cases (removed_of_memberEvents hm).2
    exact (hcd.pairSide hs ht .new).declares
  | _ => cases he

/-- An added method belongs to a class that has been matched. -/
theorem exists_matched_of_added (hs : s.WellFormed) (ht : t.WellFormed) {n : Decl}
    (h : Event.added n ∈ s.compare t filter) {info : MethodInfo} (hn : n.item.payload = .method info) :
    ∃ c d, s.Declares c ∧ c.asClass?.isSome ∧ n.containingClass? = some d ∧ c.name = d.name := by
  have hslot : n.homeSlot?.isSome := by
    simp [Decl.homeSlot?, Decl.containingMethod?, hn]
  have hon : (Event.added n).on .new = some n := rfl
  obtain ⟨c, d, hcd, hm⟩ := (origin_of_mem_compare hs ht h).member_of_homeSlot? hs ht hon hslot
  have hhome := (belongs_of_memberEvents (hcd.pairSide hs ht .new) hm rfl).2.1
  obtain ⟨p, q, hpq, hpair⟩ := hcd
  refine ⟨c, d, (hpair.pairSide (hpq.pairSide hs ht .old)).declares,
    (hpair.home (hpq.pairSide hs ht .old)).1, ?_, hpair.name_eq⟩
  unfold Decl.homeClass? at hhome
  unfold Decl.containingClass?
  rw [hn] at hhome ⊢
  exact hhome

end Comparison

namespace RuleContext

variable {s t : Surface} {context other : RuleContext}

/-- The rules say the same of every event of the comparison. -/
theorem findings_eq (h : context.StaysIn s t) (h' : other.StaysIn s t) (hs : s.WellFormed)
    (ht : t.WellFormed) (hf : context.filter = other.filter) {e : Event}
    (he : e ∈ s.compare t context.filter) : context.findings e = other.findings e := by
  cases e with
  | matched o n =>
    have hold : (Event.matched o n).on .old = some o := rfl
    have hnew : (Event.matched o n).on .new = some n := rfl
    exact Rules.Matched.findings_eq h h' hs ht (declares_of_mem_compare hs ht he hold)
      (declares_of_mem_compare hs ht he hnew)
  | removed o place =>
    refine Rules.Presence.removed_eq h h' ht hf fun d hd => ?_
    subst hd
    exact declares_of_place hs ht he
  | added n =>
    have hkind : Rules.Presence.addedKind context n = Rules.Presence.addedKind other n := by
      unfold Rules.Presence.addedKind
      cases hpay : n.item.payload with
      | method info =>
        obtain ⟨c, d, hc, hclass, hd, hname⟩ := exists_matched_of_added hs ht he hpay
        have hinfo : n.asMethod? = some info := by rw [Decl.asMethod?, hpay]
        simp only [Rules.Presence.addedMethodKind, hinfo, hd, h.old.primary, h'.old.primary,
          Rules.Presence.inheritedObligation_eq h h' hs hc hclass hname]
      | _ => rfl
    change Rules.Presence.added context n = Rules.Presence.added other n
    unfold Rules.Presence.added
    rw [hkind]

theorem allFindings_eq (h : context.StaysIn s t) (h' : other.StaysIn s t) (hs : s.WellFormed)
    (ht : t.WellFormed) (hf : context.filter = other.filter) :
    context.allFindings = other.allFindings := by
  unfold allFindings
  rw [h.old.primary, h.new.primary, h'.old.primary, h'.new.primary, ← hf]
  exact List.flatMap_congr fun e he => findings_eq h h' hs ht hf he

end RuleContext

/-- Fallbacks that have nothing to fill make no difference to a check, whatever they define besides. -/
theorem check_extend {s t : Surface} (hs : s.Built) (ht : t.Built)
    {oldFallbacks newFallbacks : List Surface} (hold : s.NothingToFill oldFallbacks)
    (hnew : t.NothingToFill newFallbacks) (filter : Filter) (severities : SeverityTable) :
    check (s.alone.extend oldFallbacks) (t.alone.extend newFallbacks) filter severities =
      check s.alone t.alone filter severities := by
  let context : RuleContext :=
    ⟨s.alone.extend oldFallbacks, t.alone.extend newFallbacks, filter⟩
  let alone : RuleContext := ⟨s.alone, t.alone, filter⟩
  have hcontext : context.StaysIn s t := ⟨.of_nothingToFill hold, .of_nothingToFill hnew⟩
  have halone : alone.StaysIn s t := ⟨.alone s, .alone t⟩
  have h : context.allFindings = alone.allFindings :=
    RuleContext.allFindings_eq hcontext halone hs.wellFormed ht.wellFormed rfl
  unfold check
  rw [h]
  rfl

/-- A surface that redefines a class of the tangled one and defines another that nobody mentions. -/
def Recipe.redefining : Recipe :=
  { calls := [.packageSpec { name := "p", classes := [
      { name := "p.C", kind := .interfaceType, modifiers := .ofVisibility .publicAccess
        interfaces := [⟨"p.Unmentioned"⟩], methods := [.published "m", .published "copied"] },
      { name := "p.Unmentioned" }] }] }

theorem check_extend_tangled :
    let s := Recipe.tangled.build 1 "old"
    let t := Recipe.tangled.build 2 "new"
    let baseline := Recipe.redefining.build 3 "baseline"
    check (s.alone.extend [t, baseline]) (t.alone.extend [baseline]) .published .standard =
      check s.alone t.alone .published .standard := by
  refine check_extend ⟨_, _, _, rfl⟩ ⟨_, _, _, rfl⟩ ?_ ?_ _ _
  · exact nothingToFill_iff.mpr (by decide +kernel)
  · exact nothingToFill_iff.mpr (by decide +kernel)

end ApiSurface
