import ApiSurface.Proofs.CounterpartChanges
import ApiSurface.Proofs.CounterpartOverrides

/-! # Additions and removals are told alike

Whether an addition or a removal counts hangs on what supertypes expose and on what methods override. The
lookups find counterparts, because what is looked for fits one member of a class at most, and the walk along
what is overridden meets twins in the same order. -/
namespace ApiSurface

open Arena Surface

namespace Rules

variable {l : Links} {context context' : RuleContext} {s s' t t' : Surface}
  {d d' m m' old old' new new' : Decl} {place place' : Option Decl}

/-! ## What is overridden -/

theorem overriddenClosure_twins (ho : t.OverridesAlike t') (h : t.Mirrors t') (bound : Nat)
    {seen seen' stack stack' : List Decl} (hseen : List.Forall₂ (t.Twins t') seen seen')
    (hstack : List.Forall₂ (fun d d' => d.isConstructor = false ∧ t.Twins t' d d') stack stack') :
    List.Forall₂ (t.Twins t') (overriddenClosure bound (seen.map Decl.id) stack)
      (overriddenClosure bound (seen'.map Decl.id) stack') := by
  induction bound generalizing seen seen' stack stack' with
  | zero => exact .nil
  | succ bound ih =>
    have hrest := forall₂_dropWhile hstack (f := fun d => (seen.map Decl.id).contains d.id)
      (g := fun d => (seen'.map Decl.id).contains d.id) fun d d' hd => by
        rw [Bool.eq_iff_iff, List.contains_iff_mem, List.contains_iff_mem, List.mem_map, List.mem_map]
        constructor
        · rintro ⟨e', he', hid⟩
          obtain ⟨e, he, hee⟩ := exists_mem_left hseen he'
          exact ⟨e, he, (h.id_eq_iff hee hd.2).mp hid⟩
        · rintro ⟨e, he, hid⟩
          obtain ⟨e', he', hee⟩ := exists_mem_right hseen he
          exact ⟨e', he', (h.id_eq_iff hee hd.2).mpr hid⟩
    rw [overriddenClosure, overriddenClosure]
    generalize stack.dropWhile _ = front at hrest ⊢
    generalize stack'.dropWhile _ = front' at hrest ⊢
    cases hrest with
    | nil => exact .nil
    | cons hcurrent hrest =>
      have habove := ho _ _ hcurrent.2 hcurrent.1
      exact .cons hcurrent.2
        (ih (.cons hcurrent.2 hseen) (List.rel_append (List.rel_reverse habove) hrest))

theorem overridesStub_twins (ho : t.OverridesAlike t') (h : t.Mirrors t') (hm : t.Twins t' m m')
    (hconstructor : m.isConstructor = false) : overridesStub m' = overridesStub m := by
  have hseen : List.Forall₂ (t.Twins t') [] [] := .nil
  have hclosure := overriddenClosure_twins ho h (m.surface.size + 1) hseen
    (List.rel_reverse (ho m m' hm hconstructor))
  unfold overridesStub
  rw [hm.left.surface] at hclosure ⊢
  rw [hm.right.surface, h.size_eq]
  exact any_of_forall₂ hclosure fun _ _ hd => by rw [(h.namesake hd).isEmitted]

namespace Presence

/-! ## Additions -/

theorem inheritedObligation_counterpart (hx : l.Contexts context context') (hl : l.Sound)
    (ht : (t, t') ∈ l.reordered) (hm : t.Twins t' m m') (hd : d.Namesake d') :
    (inheritedObligation context' d' m').isSome = (inheritedObligation context d m).isSome := by
  have hfound : Option.Rel (l.Overload m)
      ((context.oldView.findClass? d.name).bind fun c => context.oldView.findMethod? c m true true)
      ((context'.oldView.findClass? d.name).bind fun c =>
        context'.oldView.findMethod? c m' true true) :=
    rel_bind ((hx.old.alike hl).findClass? d.name) fun c c' hc =>
      View.findMethod?_counterpart hx.old hl hc ht hm true true fun _ _ _ => rfl
  unfold inheritedObligation
  rw [hd.name]
  refine isSome_of_rel (rel_option_filter hfound fun a b hab => ?_)
  rw [hab.2.isSame (.reordered ht hm) hl, (hab.2.namesake hl).modifiers]

theorem addedMethodKind_twins (hx : l.Contexts context context') (hl : l.Sound)
    (ht : (t, t') ∈ l.reordered) (ho : t.OverridesAlike t') (hm : t.Twins t' m m')
    (hconstructor : m.isConstructor = false) :
    addedMethodKind context' m' = addedMethodKind context m := by
  have hmirrors : t.Mirrors t' := hl.mirrors _ ht
  have hn := hmirrors.namesake hm
  have hpartial : context'.oldView.primary.isPartial = context.oldView.primary.isPartial :=
    (List.forall₂_cons.mp hx.old).1.isPartial hl
  unfold addedMethodKind
  rcases rel_cases hn.asMethod? with ⟨hinfo, hinfo'⟩ | ⟨info, info', hinfo, hinfo', hbare⟩
  · rw [hinfo, hinfo']
  · have hinherited : info'.isInherited = info.isInherited := (congrArg MethodInfo.isInherited hbare :)
    have hdefault : info'.annotationDefault = info.annotationDefault :=
      (congrArg MethodInfo.annotationDefault hbare :)
    rcases rel_cases hn.containingClass? with ⟨hc, hc'⟩ | ⟨owner, owner', hc, hc', hno⟩
    · rw [hinfo, hinfo', hc, hc']
    · rw [hinfo, hinfo', hc, hc']
      dsimp only
      rw [hinherited, hpartial, overridesStub_twins ho hmirrors hm hconstructor,
        isEnumAccessor_counterpart hl (.reordered ht hm), hdefault, hno.isClosed,
        inheritedObligation_counterpart hx hl ht hm hno, hn.modifiers]

/-- What is said about an addition is said about its twin. -/
theorem added_twins (hx : l.Contexts context context') (hl : l.Sound) (ht : (t, t') ∈ l.reordered)
    (ho : t.OverridesAlike t') (hd : t.Twins t' new new') :
    (added context' new').map Finding.told = (added context new).map Finding.told := by
  have hn : new.Namesake new' := (hl.mirrors _ ht).namesake hd
  have hkind : addedKind context' new' = addedKind context new := by
    have hpay := hn.payload
    unfold addedKind
    cases hp : new.item.payload <;> cases hp' : new'.item.payload <;> rw [hp, hp'] at hpay <;>
      try cases hpay
    case method.method =>
      refine addedMethodKind_twins hx hl ht ho hd ?_
      rw [Decl.isConstructor, hp]
  unfold added
  rw [hn.flags, hkind, hn.describe]
  split
  · rfl
  · split
    · simp only [List.map_cons, List.map_nil, Finding.told, hn.describe]
    · rfl

/-! ## Removals -/

theorem isStillInherited_twins (hx : l.Contexts context context') (hl : l.Sound)
    (hs : (s, s') ∈ l.reordered) (hd : s.Twins s' old old')
    (hplace : Option.Rel l.Counterpart place place') :
    isStillInherited context' old' place' = isStillInherited context old place := by
  have hn : old.Namesake old' := (hl.mirrors _ hs).namesake hd
  have hfilter : ∀ a b, l.Counterpart a b → context'.filter b = context.filter a := by
    intro a b hab
    rw [hx.filter]
    exact hx.steady a b (hab.namesake hl)
  unfold isStillInherited
  cases hplace with
  | none => rfl
  | some hplace =>
    rcases rel_cases hn.asField? with ⟨hf, hf'⟩ | ⟨info, info', hf, hf', hname, _⟩
    · rw [hf, hf']
      exact isSome_of_rel (View.findMethod?_counterpart hx.new hl hplace hs hd true true hfilter)
    · rw [hf, hf']
      dsimp only
      rw [hname]
      exact isSome_of_rel (View.findField?_counterpart hx.new hl hplace info.name true true hfilter)

/-- What is said about a removal is said about its twin. -/
theorem removed_twins (hx : l.Contexts context context') (hl : l.Sound)
    (hs : (s, s') ∈ l.reordered) (hd : s.Twins s' old old')
    (hplace : Option.Rel l.Counterpart place place') :
    (removed context' old' place').map Finding.told = (removed context old place).map Finding.told := by
  have hn : old.Namesake old' := (hl.mirrors _ hs).namesake hd
  have hkind : removedKind context' old' place' = removedKind context old place := by
    have hpay := hn.payload
    unfold removedKind
    rw [isStillInherited_twins hx hl hs hd hplace]
    cases hp : old.item.payload <;> cases hp' : old'.item.payload <;> rw [hp, hp'] at hpay <;>
      first | rfl | cases hpay
  have hfilter : context'.filter old' = context.filter old := by
    rw [hx.filter]
    exact hx.steady old old' hn
  unfold removed
  rw [hn.isEmitted, hfilter, hn.isEffectively, hn.isEffectively, hkind, hn.describe]
  split
  · rfl
  · split
    · simp only [List.map_cons, List.map_nil, Finding.told, hn.describe]
    · rfl

end Presence

end Rules

/-! ## All that is said -/

namespace RuleContext

variable {l : Links} {context context' : RuleContext} {s s' t t' : Surface}

/-- Both contexts compare surfaces that correspond, and so they tell the same in the same order. -/
theorem map_told_allFindings (hx : l.Contexts context context') (hl : l.Sound)
    (hs : (context.oldView.primary, context'.oldView.primary) ∈ l.reordered)
    (ht : (context.newView.primary, context'.newView.primary) ∈ l.reordered)
    (ho : context.newView.primary.OverridesAlike context'.newView.primary) :
    context'.allFindings.map Finding.told = context.allFindings.map Finding.told := by
  have hrearranges : ∀ {s s' : Surface}, (s, s') ∈ l.reordered → s.Rearranges s' := fun h =>
    ⟨hl.mirrors _ h, hl.distinguishes _ h _ h, hl.distinguishes' _ h _ h⟩
  have hevents := Comparison.compare_twins (hrearranges hs) (hrearranges ht) hx.steady
  unfold allFindings
  rw [hx.filter, List.map_flatMap, List.map_flatMap]
  refine flatMap_of_forall₂ hevents fun e e' he => ?_
  cases he with
  | matched hold hnew =>
    exact Rules.Matched.findings_counterpart hx hl (.reordered hs hold) (.reordered ht hnew)
  | removed hold hinto =>
    exact Rules.Presence.removed_twins hx hl hs hold
      (rel_imp hinto fun _ _ h => .reordered ht h)
  | added hnew => exact Rules.Presence.added_twins hx hl ht ho hnew

end RuleContext

end ApiSurface
