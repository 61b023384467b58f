import Mathlib.Data.List.Flatten
import ApiSurface.Proofs.Removal
import ApiSurface.Proofs.Supertypes

/-! # Learning more classes

A view that is told of more classes never takes back a definite answer. What it knew it still finds, so a
walk that met no unknown class goes the same way again, and one that did was not definite unless it had
found what it was asked for. Only the root of all hierarchies makes a difference to a walk that counts as
complete without it: it joins the superclasses, where it adds nothing as long as it has no supertypes. -/
namespace ApiSurface

open Surface

/-- What the first answer says definitely the second one says too. -/
def Upheld (before after : Option Bool) : Prop := ∀ verdict, before = some verdict → after = some verdict

/-- Nothing is declared above the root of all hierarchies, if the surface declares it. -/
def Surface.TopIsBare (s : Surface) : Prop :=
  ∀ d, s.findClass? TypeRef.objectName = some d → d.superclass? = none ∧ d.interfaces = []

instance (s : Surface) : Decidable s.TopIsBare :=
  decidable_of_iff ((s.findClass? TypeRef.objectName).all fun d =>
      d.superclass?.isNone && d.interfaces.isEmpty) <| by
    unfold Surface.TopIsBare
    cases s.findClass? TypeRef.objectName <;> simp

namespace View

/-- The second view knows all classes that the first one knows, and if it knows the root of all
hierarchies and the first one does not, then nothing is declared above it. -/
structure PartOf (v w : View) : Prop where
  sound : v.Sound
  sound' : w.Sound
  keeps : ∀ {name d}, v.findClass? name = some d → w.findClass? name = some d
  top : ∀ {d}, v.findClass? TypeRef.objectName = none → w.findClass? TypeRef.objectName = some d →
    d.superclass? = none ∧ d.interfaces = []

variable {v w : View} {d x : Decl} {name : String} {roots more : List Decl} {seen : List String}

theorem findClass?_of_extend (v : View) (more : List Surface) (name : String) :
    (v.extend more).findClass? name = (v.findClass? name).or (more.findSome? (·.findClass? name)) := by
  change (v.surfaces ++ more).findSome? (·.findClass? name) = _
  rw [List.findSome?_append]
  rfl

theorem partOf_extend {more : List Surface} (hv : ∀ s ∈ v.surfaces, s.Built) (hmore : ∀ s ∈ more, s.Built)
    (htop : ∀ s ∈ more, s.TopIsBare) : v.PartOf (v.extend more) where
  sound := sound_of_built hv
  sound' := sound_of_built fun s hs => (List.mem_append.mp hs).elim (hv s) (hmore s)
  keeps h := by
    rw [findClass?_of_extend, h]
    rfl
  top h h' := by
    rw [findClass?_of_extend, h, Option.none_or] at h'
    obtain ⟨s, hs, hd⟩ := List.exists_of_findSome?_eq_some h'
    exact htop s hs _ hd

/-! ## Superclasses -/

theorem PartOf.extendsAbove (h : v.PartOf w) {m n : Nat} (hm : v.unmet seen < m) (hn : w.unmet seen < n) :
    Upheld (v.extendsAbove name m seen d) (w.extendsAbove name n seen d) := by
  induction m generalizing n seen d with
  | zero => omega
  | succ m ih =>
    cases n with
    | zero => omega
    | succ n =>
      unfold View.extendsAbove
      cases d.superclass? with
      | none => exact fun _ h => h
      | some type =>
        dsimp only
        split
        · exact fun _ h => h
        · cases hresolve : v.resolve type with
          | none => exact fun _ h => by cases h
          | some above =>
            have hfind : w.resolve type = some above := h.keeps hresolve
            rw [hfind]
            dsimp only
            split
            · exact fun _ h => h
            · next hnew =>
              have hlt := h.sound.unmet_cons_lt (h.sound.knows hresolve) (Bool.eq_false_iff.mpr hnew)
              have hlt' := h.sound'.unmet_cons_lt (h.sound'.knows hfind) (Bool.eq_false_iff.mpr hnew)
              exact ih (by omega) (by omega)

theorem PartOf.extendsClass (h : v.PartOf w) (d : Decl) (name : String) :
    Upheld (v.extendsClass d name) (w.extendsClass d name) := by
  have hle := v.unmet_le [d.name]
  have hle' := w.unmet_le [d.name]
  unfold View.extendsClass
  split
  · exact fun _ h => h
  · exact h.extendsAbove (by omega) (by omega)

/-- How a chain of superclasses may grow when more classes are known. A complete one gains at most a
class without interfaces. -/
structure ChainGrows (before after : SuperclassChain) : Prop where
  members : before.members <+: after.members
  complete : before.isComplete = true → after.isComplete = true
  bare : before.isComplete = true → ∀ x ∈ after.members, x ∈ before.members ∨ x.interfaces = []

theorem ChainGrows.refl (chain : SuperclassChain) : ChainGrows chain chain :=
  ⟨List.prefix_refl _, id, fun _ _ hx => .inl hx⟩

theorem ChainGrows.cons {before after : SuperclassChain} (h : ChainGrows before after) (above : Decl) :
    ChainGrows { before with members := above :: before.members }
      { after with members := above :: after.members } where
  members := List.cons_prefix_cons.mpr ⟨rfl, h.members⟩
  complete := h.complete
  bare hcomplete x hx := by
    rcases List.mem_cons.mp hx with rfl | hx
    · exact .inl List.mem_cons_self
    · exact (h.bare hcomplete x hx).imp_left (List.mem_cons_of_mem _)

theorem superclassesAbove_of_none (v : View) (h : d.superclass? = none) {bound : Nat} :
    v.superclassesAbove bound seen d = ⟨[], true⟩ := by
  cases bound with
  | zero => rfl
  | succ bound => rw [View.superclassesAbove, h]

theorem PartOf.superclassesAbove (h : v.PartOf w) {m n : Nat} (hm : v.unmet seen < m)
    (hn : w.unmet seen < n) :
    ChainGrows (v.superclassesAbove m seen d) (w.superclassesAbove n seen d) := by
  induction m generalizing n seen d with
  | zero => omega
  | succ m ih =>
    cases n with
    | zero => omega
    | succ n =>
      unfold View.superclassesAbove
      cases d.superclass? with
      | none => exact .refl _
      | some type =>
        dsimp only
        cases hresolve : v.resolve type with
        | none =>
          cases hfind : w.resolve type with
          | none => exact .refl _
          | some above =>
            dsimp only
            split
            · exact ⟨List.nil_prefix, fun _ => rfl, fun _ x hx => (List.not_mem_nil hx).elim⟩
            · -- an unknown class that leaves a chain complete is the root of all hierarchies
              have htop : (type.baseName == TypeRef.objectName) = true →
                  above.superclass? = none ∧ above.interfaces = [] := by
                intro hroot
                unfold resolve at hresolve hfind
                rw [eq_of_beq hroot] at hresolve hfind
                exact h.top hresolve hfind
              refine ⟨List.nil_prefix, fun hroot => ?_, fun hroot x hx => .inr ?_⟩
              · rw [superclassesAbove_of_none w (htop hroot).1]
              · rw [superclassesAbove_of_none w (htop hroot).1, List.mem_singleton] at hx
                rw [hx]
                exact (htop hroot).2
        | some above =>
          have hfind : w.resolve type = some above := h.keeps hresolve
          rw [hfind]
          dsimp only
          split
          · exact .refl _
          · next hnew =>
            have hlt := h.sound.unmet_cons_lt (h.sound.knows hresolve) (Bool.eq_false_iff.mpr hnew)
            have hlt' := h.sound'.unmet_cons_lt (h.sound'.knows hfind) (Bool.eq_false_iff.mpr hnew)
            exact (ih (by omega) (by omega)).cons above

theorem PartOf.superclassChain (h : v.PartOf w) (d : Decl) :
    ChainGrows (v.superclassChain d) (w.superclassChain d) := by
  have hle := v.unmet_le [d.name]
  have hle' := w.unmet_le [d.name]
  exact h.superclassesAbove (by omega) (by omega)

/-! ## Interfaces -/

theorem Reaches.mono (hd : v.Reaches roots d) (h : v.PartOf w) (hroots : roots ⊆ more) :
    w.Reaches more d := by
  induction hd with
  | root hd => exact .root (hroots hd)
  | step _ htype hresolve ih => exact ih.step htype (h.keeps hresolve)

/-- If the first view resolves all references that it meets, the second one meets no others, up to
roots without interfaces. -/
theorem Reaches.of_mono (hd : w.Reaches more d) (h : v.PartOf w)
    (hroots : ∀ x ∈ more, x ∈ roots ∨ x.interfaces = [])
    (hknown : ∀ x, v.Reaches roots x → ∀ type ∈ x.interfaces, (v.resolve type).isSome) :
    v.Reaches roots d ∨ d.interfaces = [] := by
  induction hd with
  | root hd => exact (hroots _ hd).imp_left .root
  | @step x above type _ htype hresolve ih =>
    rcases ih with hx | hbare
    · obtain ⟨found, hfound⟩ := Option.isSome_iff_exists.mp (hknown x hx type htype)
      have hsame : w.resolve type = some found := h.keeps hfound
      rw [hresolve] at hsame
      cases hsame
      exact .inl (hx.step htype hfound)
    · rw [hbare] at htype
      exact (List.not_mem_nil htype).elim

theorem Inherits.mono (hx : v.Inherits d x) (h : v.PartOf w) : w.Inherits d x :=
  Reaches.mono hx h (List.cons_subset_cons d (h.superclassChain d).members.subset)

theorem PartOf.implementsInterface (h : v.PartOf w) (d : Decl) (name : String) :
    Upheld (v.implementsInterface d name) (w.implementsInterface d name) := by
  intro verdict hverdict
  cases verdict with
  | true =>
    rw [h.sound'.implementsInterface_eq_true]
    refine (h.sound.implementsInterface_eq_true.mp hverdict).imp_right ?_
    rintro ⟨x, hx, hnamed⟩
    exact ⟨x, hx.mono h, hnamed⟩
  | false =>
    obtain ⟨hobject, hcomplete, hall⟩ := h.sound.implementsInterface_eq_false.mp hverdict
    have hchain := h.superclassChain d
    rw [h.sound'.implementsInterface_eq_false]
    refine ⟨hobject, hchain.complete hcomplete, fun x hx type htype => ?_⟩
    have hroots : ∀ y ∈ d :: (w.superclassChain d).members,
        y ∈ d :: (v.superclassChain d).members ∨ y.interfaces = [] := by
      intro y hy
      rcases List.mem_cons.mp hy with rfl | hy
      · exact .inl List.mem_cons_self
      · exact (hchain.bare hcomplete y hy).imp_left (List.mem_cons_of_mem _)
    rcases Reaches.of_mono hx h hroots fun y hy type htype => (hall y hy type htype).2 with
      hx | hbare
    · obtain ⟨hname, hknown⟩ := hall x hx type htype
      obtain ⟨found, hfound⟩ := Option.isSome_iff_exists.mp hknown
      exact ⟨hname, Option.isSome_iff_exists.mpr ⟨found, h.keeps hfound⟩⟩
    · rw [hbare] at htype
      exact (List.not_mem_nil htype).elim

theorem PartOf.extendsOrImplements (h : v.PartOf w) (d : Decl) (name : String) :
    Upheld (v.extendsOrImplements d name) (w.extendsOrImplements d name) := by
  have hextends := h.extendsClass d name
  have himplements := h.implementsInterface d name
  intro verdict hverdict
  unfold View.extendsOrImplements at hverdict ⊢
  split at hverdict
  · next heq =>
    rw [hextends _ heq]
    exact hverdict
  · next heq _ =>
    rw [himplements _ heq]
    cases w.extendsClass d name with
    | none => exact hverdict
    | some other =>
      cases other with
      | true => exact hverdict
      | false => exact hverdict
  · next heq heq' =>
    rw [hextends _ heq, himplements _ heq']
    exact hverdict
  · cases hverdict

/-! ## Lookups -/

theorem PartOf.searchSupertypes (h : v.PartOf w) {superclasses interfaces : Bool}
    {search : Decl → Option Decl}
    (hhit : (v.searchSupertypes d superclasses interfaces search).isSome) :
    (w.searchSupertypes d superclasses interfaces search).isSome := by
  have hchain : v.searchedChain d superclasses ⊆ w.searchedChain d superclasses := by
    unfold searchedChain
    split
    · exact (h.superclassChain d).members.subset
    · exact List.Subset.refl _
  rw [h.sound.isSome_searchSupertypes] at hhit
  rw [h.sound'.isSome_searchSupertypes]
  refine hhit.imp ?_ (And.imp_right ?_)
  · rintro ⟨x, hx, hfound⟩
    exact ⟨x, hchain hx, hfound⟩
  · rintro ⟨x, hx, type, htype, above, hresolve, hfound⟩
    exact ⟨x, hx.mono h (List.cons_subset_cons d hchain), type, htype, above, h.keeps hresolve, hfound⟩

theorem PartOf.findMethod? (h : v.PartOf w) {probe : Decl} {superclasses interfaces : Bool}
    {accept : Decl → Bool} (hhit : (v.findMethod? d probe superclasses interfaces accept).isSome) :
    (w.findMethod? d probe superclasses interfaces accept).isSome := by
  unfold View.findMethod? at hhit ⊢
  cases hprobe : probe.isConstructor with
  | true =>
    rw [hprobe] at hhit
    exact hhit
  | false =>
    simp only [hprobe, Bool.false_eq_true, if_false, Option.isSome_or, Bool.or_eq_true] at hhit ⊢
    exact hhit.imp_right h.searchSupertypes

theorem PartOf.findField? (h : v.PartOf w) {superclasses interfaces : Bool} {accept : Decl → Bool}
    (hhit : (v.findField? d name superclasses interfaces accept).isSome) :
    (w.findField? d name superclasses interfaces accept).isSome := by
  unfold View.findField? at hhit ⊢
  dsimp only at hhit ⊢
  rw [Option.isSome_or, Bool.or_eq_true] at hhit ⊢
  exact hhit.imp_right h.searchSupertypes

end View

/-! ## Rules -/

/-- The second context knows all that the first one knows. -/
structure RuleContext.PartOf (context other : RuleContext) : Prop where
  old : context.oldView.PartOf other.oldView
  new : context.newView.PartOf other.newView
  filter : context.filter = other.filter

theorem raiseIf_sublist {before after : Option Bool} (h : Upheld before after) (kind : IssueKind)
    (subject : Decl) (message : String) :
    (raiseIf (before == some false) kind subject message).Sublist
      (raiseIf (after == some false) kind subject message) := by
  by_cases hbefore : before = some false
  · rw [hbefore, h false hbefore]
  · have hnot : (before == some false) = false := beq_eq_false_iff_ne.mpr hbefore
    rw [hnot]
    exact List.nil_sublist _

namespace Rules

variable {v w : View} {context other : RuleContext} {old new : Decl}

theorem throwsAs_upheld (h : v.PartOf w) (name : String) (type : TypeRef) :
    Upheld (throwsAs v name type) (throwsAs w name type) := by
  unfold throwsAs
  split
  · exact fun _ h => h
  · intro verdict hverdict
    obtain ⟨d, hd, hextends⟩ := Option.bind_eq_some_iff.mp hverdict
    exact Option.bind_eq_some_iff.mpr ⟨d, h.keeps hd, h.extendsClass d name verdict hextends⟩

theorem methodThrows_eq_true {method : Decl} {name : String} :
    methodThrows v method name = some true ↔
      ∃ info, method.asMethod? = some info ∧ ∃ type ∈ info.throws, throwsAs v name type = some true := by
  unfold methodThrows
  cases method.asMethod? with
  | none => simp
  | some info =>
    have hthrown : (info.throws.map (throwsAs v name)).contains (some true) = true ↔
        ∃ type ∈ info.throws, throwsAs v name type = some true := by
      rw [List.contains_iff_mem, List.mem_map]
    simp only [Option.some.injEq, exists_eq_left', ← hthrown]
    split
    · next h => exact ⟨fun _ => h, fun _ => rfl⟩
    · next h =>
      refine ⟨fun h' => ?_, fun h' => (h h').elim⟩
      split at h'
      · cases h'
      · cases h'

theorem methodThrows_eq_false {method : Decl} {name : String} :
    methodThrows v method name = some false ↔
      ∃ info, method.asMethod? = some info ∧ ∀ type ∈ info.throws, throwsAs v name type = some false := by
  unfold methodThrows
  cases method.asMethod? with
  | none => simp
  | some info =>
    have hthrown : (info.throws.map (throwsAs v name)).contains (some true) = true ↔
        ∃ type ∈ info.throws, throwsAs v name type = some true := by
      rw [List.contains_iff_mem, List.mem_map]
    have hsilent : ((info.throws.map (throwsAs v name)).all fun verdict => verdict == some false) = true ↔
        ∀ type ∈ info.throws, throwsAs v name type = some false := by
      rw [List.all_map, List.all_eq_true]
      exact forall₂_congr fun _ _ => beq_iff_eq
    simp only [Option.some.injEq, exists_eq_left', ← hsilent]
    split
    · next h =>
      obtain ⟨type, htype, hyes⟩ := hthrown.mp h
      refine ⟨fun h' => (by cases h'), fun h' => ?_⟩
      rw [hsilent.mp h' type htype] at hyes
      cases hyes
    · split
      · next h => exact ⟨fun _ => h, fun _ => rfl⟩
      · next h => exact ⟨fun h' => (by cases h'), fun h' => (h h').elim⟩

theorem methodThrows_upheld (h : v.PartOf w) (method : Decl) (name : String) :
    Upheld (methodThrows v method name) (methodThrows w method name) := by
  intro verdict hverdict
  cases verdict with
  | true =>
    obtain ⟨info, hinfo, type, htype, hthrown⟩ := methodThrows_eq_true.mp hverdict
    exact methodThrows_eq_true.mpr
      ⟨info, hinfo, type, htype, throwsAs_upheld h name type true hthrown⟩
  | false =>
    obtain ⟨info, hinfo, hall⟩ := methodThrows_eq_false.mp hverdict
    exact methodThrows_eq_false.mpr
      ⟨info, hinfo, fun type htype => throwsAs_upheld h name type false (hall type htype)⟩

namespace Matched

theorem withinBounds_upheld (h : v.PartOf w) (d : Decl) (bounds : List TypeRef) :
    Upheld (withinBounds v d bounds) (withinBounds w d bounds) := by
  induction bounds with
  | nil => exact fun _ h => h
  | cons bound rest ih =>
    have hbound := h.extendsOrImplements d bound.baseName
    unfold withinBounds
    split
    · exact ih
    · intro verdict hverdict
      cases hbefore : v.extendsOrImplements d bound.baseName with
      | none =>
        rw [hbefore] at hverdict
        cases hverdict
      | some answer =>
        rw [hbefore] at hverdict
        rw [hbound answer hbefore]
        cases answer with
        | true => exact ih verdict hverdict
        | false => exact hverdict

theorem returnTypeCompatible_upheld (h : context.PartOf other) (was now : TypeRef) :
    Upheld (returnTypeCompatible context old new was now)
      (returnTypeCompatible other old new was now) := by
  unfold returnTypeCompatible
  split
  · split
    · exact fun _ h => h
    · split
      · exact fun _ h => h
      · intro verdict hverdict
        obtain ⟨d, hd, hbounds⟩ := Option.bind_eq_some_iff.mp hverdict
        exact Option.bind_eq_some_iff.mpr
          ⟨d, h.old.keeps hd, withinBounds_upheld h.old d _ verdict hbounds⟩
  · exact fun _ h => h
  · exact fun _ h => h
  · exact fun _ h => h

theorem returnType_sublist (h : context.PartOf other) :
    (returnType context old new).Sublist (returnType other old new) := by
  unfold returnType
  split
  · exact raiseIf_sublist (returnTypeCompatible_upheld h _ _) _ _ _
  · exact List.Sublist.refl _

theorem exceptions_sublist (h : context.PartOf other) :
    (exceptions context old new).Sublist (exceptions other old new) := by
  unfold exceptions
  split
  · split
    · exact List.Sublist.refl _
    · refine List.Sublist.append ?_ ?_
      · exact List.Sublist.flatMap_right _ fun type _ =>
          raiseIf_sublist (methodThrows_upheld h.new new type.baseName) _ _ _
      · exact List.Sublist.flatMap_right _ fun type _ =>
          raiseIf_sublist (methodThrows_upheld h.old old type.baseName) _ _ _
  · exact List.Sublist.refl _

theorem methodRules_sublist (h : context.PartOf other) :
    (methodRules context old new).Sublist (methodRules other old new) :=
  .append (.append (.refl _) (returnType_sublist h)) (exceptions_sublist h)

theorem removedInterfaces_sublist (h : context.PartOf other) :
    (removedInterfaces context old new).Sublist (removedInterfaces other old new) :=
  .flatMap_right _ fun type _ =>
    raiseIf_sublist (h.new.implementsInterface new type.baseName) _ _ _

theorem addedInterfaces_sublist (h : context.PartOf other) :
    (addedInterfaces context old new).Sublist (addedInterfaces other old new) := by
  unfold addedInterfaces
  split
  · exact .refl _
  · exact .flatMap_right _ fun type _ =>
      raiseIf_sublist (h.old.implementsInterface old type.baseName) _ _ _

theorem superclass_sublist (h : context.PartOf other) :
    (superclass context old new).Sublist (superclass other old new) := by
  unfold superclass
  split
  · exact .refl _
  · exact raiseIf_sublist (h.new.extendsClass new _) _ _ _

theorem classRules_sublist (h : context.PartOf other) :
    (classRules context old new).Sublist (classRules other old new) := by
  unfold classRules
  split
  · exact .append (.append (.append (.refl _) (removedInterfaces_sublist h))
      (addedInterfaces_sublist h)) (superclass_sublist h)
  · exact .refl _

/-- All that is found about a matched pair is still found. -/
theorem findings_sublist (h : context.PartOf other) :
    (findings context old new).Sublist (findings other old new) := by
  unfold findings
  split
  · exact .refl _
  · exact .append (.refl _) (classRules_sublist h)
  · exact .append (.refl _) (methodRules_sublist h)
  · exact .append (.refl _) (methodRules_sublist h)
  · exact .refl _
  · exact .refl _

end Matched

namespace Presence

theorem isStillInherited_mono (h : context.PartOf other) {place : Option Decl}
    (hplace : isStillInherited context old place = true) :
    isStillInherited other old place = true := by
  unfold isStillInherited at hplace ⊢
  rw [← h.filter]
  cases place with
  | none => exact hplace
  | some d =>
    cases hfield : old.asField? with
    | none =>
      simp only [hfield] at hplace
      exact h.new.findMethod? hplace
    | some info =>
      simp only [hfield] at hplace
      exact h.new.findField? hplace

/-- What is found about a removed declaration was found before. -/
theorem removed_sublist (h : context.PartOf other) (place : Option Decl) :
    (removed other old place).Sublist (removed context old place) := by
  have hkind : ∀ kind, removedKind other old place = some kind →
      removedKind context old place = some kind := by
    have hmono : isStillInherited other old place = false → isStillInherited context old place = false :=
      fun hafter => Bool.eq_false_iff.mpr fun hbefore => by
        rw [isStillInherited_mono h hbefore] at hafter
        cases hafter
    intro kind hkind
    unfold removedKind at hkind ⊢
    cases hafter : isStillInherited other old place with
    | true =>
      rw [hafter] at hkind
      split at hkind
      · exact hkind
      · exact hkind
      · cases hkind
      · cases hkind
      · cases hkind
      · cases hkind
    | false =>
      rw [hafter] at hkind
      rw [hmono hafter]
      exact hkind
  unfold removed
  rw [h.filter]
  split
  · exact .refl _
  · cases hafter : removedKind other old place with
    | none => exact List.nil_sublist _
    | some kind => rw [hkind kind hafter]

theorem isRemoval_of_mem_removed {place : Option Decl} {f : Finding}
    (hf : f ∈ removed context old place) : f.kind.isRemoval = true :=
  (RuleContext.isRemoval_of_removedKind (RuleContext.mem_removed hf).2.2).1

end Presence

end Rules

/-! ## Whole checks -/

namespace RuleContext

variable {context other : RuleContext}

theorem changes_sublist (h : context.PartOf other) (e : Event) :
    ((context.findings e).filter fun f => f.kind.isChange).Sublist
      ((other.findings e).filter fun f => f.kind.isChange) := by
  cases e with
  | matched old new => exact (Rules.Matched.findings_sublist h).filter _
  | removed old place =>
    have hnone : (context.findings (.removed old place)).filter (fun f => f.kind.isChange) = [] := by
      refine List.filter_eq_nil_iff.mpr fun f hf hchange => ?_
      rw [IssueKind.isChange, Rules.Presence.isRemoval_of_mem_removed hf, Bool.not_true,
        Bool.and_false] at hchange
      cases hchange
    rw [hnone]
    exact List.nil_sublist _
  | added new =>
    have hnone : (context.findings (.added new)).filter (fun f => f.kind.isChange) = [] := by
      refine List.filter_eq_nil_iff.mpr fun f hf hchange => ?_
      rw [IssueKind.isChange, (Rules.Presence.mem_added hf).2, Bool.not_true,
        Bool.false_and] at hchange
      cases hchange
    rw [hnone]
    exact List.nil_sublist _

theorem removals_sublist (h : context.PartOf other) (e : Event) :
    ((other.findings e).filter fun f => f.kind.isRemoval).Sublist
      ((context.findings e).filter fun f => f.kind.isRemoval) := by
  have hnone : (∀ old place, e ≠ .removed old place) →
      (other.findings e).filter (fun f => f.kind.isRemoval) = [] := by
    intro he
    refine List.filter_eq_nil_iff.mpr fun f hf hremoval => ?_
    obtain ⟨place, rfl⟩ := exists_removed_of_isRemoval hf hremoval
    exact he _ place rfl
  cases e with
  | removed old place => exact (Rules.Presence.removed_sublist h place).filter _
  | matched old new =>
    rw [hnone fun _ _ => nofun]
    exact List.nil_sublist _
  | added new =>
    rw [hnone fun _ _ => nofun]
    exact List.nil_sublist _

end RuleContext

/-- The issues whose kinds are of some sort come from the findings whose kinds are. -/
theorem filter_issues_of_check (old new : View) (filter : Filter) (severities : SeverityTable)
    (p : IssueKind → Bool) :
    ((check old new filter severities).issues.filter fun issue => p issue.kind) =
      (((({ oldView := old, newView := new, filter : RuleContext }.allFindings).filter fun f =>
        p f.kind).filter (Finding.isRecorded severities)).map (Finding.issue severities)) := by
  rw [check_issues, RuleContext.reports, List.filter_map, List.filter_filter, List.filter_filter]
  congr 2
  funext f
  exact Bool.and_comm _ _

/-- Once more classes are known, a definite answer on the hierarchy stays as it was. So a check still
reports all changes that it reported, and no removals that it did not report. -/
theorem check_moreClasses {v w : View} {more more' : List Surface} (hv : ∀ s ∈ v.surfaces, s.Built)
    (hw : ∀ s ∈ w.surfaces, s.Built) (hmore : ∀ s ∈ more, s.Built ∧ s.TopIsBare)
    (hmore' : ∀ s ∈ more', s.Built ∧ s.TopIsBare) :
    (∀ d name verdict,
      (v.extendsClass d name = some verdict → (v.extend more).extendsClass d name = some verdict) ∧
        (v.implementsInterface d name = some verdict →
          (v.extend more).implementsInterface d name = some verdict) ∧
        (v.extendsOrImplements d name = some verdict →
          (v.extend more).extendsOrImplements d name = some verdict)) ∧
      ∀ filter severities,
        let before := check v w filter severities
        let after := check (v.extend more) (w.extend more') filter severities
        (before.issues.filter fun issue => issue.kind.isChange).Sublist
            (after.issues.filter fun issue => issue.kind.isChange) ∧
          (after.issues.filter fun issue => issue.kind.isRemoval).Sublist
            (before.issues.filter fun issue => issue.kind.isRemoval) := by
  have hold := View.partOf_extend hv (fun s hs => (hmore s hs).1) fun s hs => (hmore s hs).2
  have hnew := View.partOf_extend hw (fun s hs => (hmore' s hs).1) fun s hs => (hmore' s hs).2
  refine ⟨fun d name verdict => ⟨hold.extendsClass d name verdict, hold.implementsInterface d name verdict,
    hold.extendsOrImplements d name verdict⟩, fun filter severities => ?_⟩
  have h : RuleContext.PartOf { oldView := v, newView := w, filter }
      { oldView := v.extend more, newView := w.extend more', filter } := ⟨hold, hnew, rfl⟩
  dsimp only
  rw [filter_issues_of_check, filter_issues_of_check, filter_issues_of_check, filter_issues_of_check]
  unfold RuleContext.allFindings
  simp only [List.filter_flatMap]
  refine ⟨List.Sublist.map _ ?_, List.Sublist.map _ ?_⟩
  · exact .flatMap_right _ fun e _ => (RuleContext.changes_sublist h e).filter _
  · exact .flatMap_right _ fun e _ => (RuleContext.removals_sublist h e).filter _

/-- A class with one supertype of each sort, which it does not declare itself. -/
def Recipe.dangling (superclass interface : String) : Recipe :=
  { calls := [.packageSpec { name := "p", classes := [
      { name := "p.C", modifiers := .ofVisibility .publicAccess, superclass := some ⟨superclass⟩
        interfaces := [⟨interface⟩] }] }] }

/-- Classes that others extend and implement, and the root of them all. -/
def Recipe.foundations : Recipe :=
  { calls := [
      .packageSpec { name := "java.lang", classes := [{ name := "java.lang.Object" }] },
      .packageSpec { name := "q", classes := [
        { name := "q.Base", superclass := some ⟨"java.lang.Object"⟩ },
        { name := "q.Other", superclass := some ⟨"q.Base"⟩, interfaces := [⟨"q.Unknown"⟩] },
        { name := "q.Able", kind := .interfaceType }] }] }

theorem check_moreClasses_foundations :
    let old := Recipe.dangling "q.Other" "q.Able" |>.build 1 "old"
    let new := Recipe.dangling "q.Base" "q.Able" |>.build 2 "new"
    let foundations := Recipe.foundations.build 3 "foundations"
    let before := check old.alone new.alone .published .standard
    let after := check (old.alone.extend [foundations]) (new.alone.extend [foundations])
      .published .standard
    before.issues.map Issue.kind = [] ∧ after.issues.map Issue.kind = [.changedSuperclass] ∧
      (before.issues.filter fun issue => issue.kind.isChange).Sublist
        (after.issues.filter fun issue => issue.kind.isChange) := by
  refine ⟨by decide +kernel, by decide +kernel, ?_⟩
  refine ((check_moreClasses ?_ ?_ ?_ ?_).2 .published .standard).1
  · exact fun s hs => List.mem_singleton.mp hs ▸ ⟨_, _, _, rfl⟩
  · exact fun s hs => List.mem_singleton.mp hs ▸ ⟨_, _, _, rfl⟩
  · exact fun s hs => List.mem_singleton.mp hs ▸ ⟨⟨_, _, _, rfl⟩, by decide +kernel⟩
  · exact fun s hs => List.mem_singleton.mp hs ▸ ⟨⟨_, _, _, rfl⟩, by decide +kernel⟩

end ApiSurface
