import ApiSurface.Proofs.AlignedChecks
import ApiSurface.Proofs.RenamedEvents

/-! # Checks of renamed surfaces

A check of a surface against one with other names for its type parameters matches every declaration with its
peer. Of all rules only two can tell the difference: the type of a field must be written as it was, and so
must a result, unless it is a type parameter, whose bounds must then be written as they were. -/
namespace ApiSurface

open Arena Surface Comparison

variable {old new : View} {d d' : Decl}

/-- The superclasses, interfaces and exceptions of the one view keep their names in the other, unless neither
view knows them. -/
def View.KeepsReferences (old new : View) : Prop :=
  ∀ d d', old.primary.Peers new.primary d d' → ∀ a ∈ d.superclass?.toList ++ d.furtherTypes,
    ∀ b ∈ d'.superclass?.toList ++ d'.furtherTypes, a.RenamedIn d.typeScope d'.typeScope b →
      b.baseName = a.baseName ∨ old.resolve a = none ∧ new.resolve b = none

section Rules

variable (hd : old.primary.Peers new.primary d d') (h : old.primary.Renamed new.primary)

include hd h

/-- Renamed superclasses are renamed types. -/
theorem Surface.Peers.superclass? :
    Option.Rel (TypeRef.RenamedIn d.typeScope d'.typeScope) d.superclass? d'.superclass? := by
  have htype := (h.renamed hd).mainType
  refine hd.superclass?_rel h.aligned ?_
  cases hm : d.mainType? <;> cases hm' : d'.mainType? <;> rw [hm, hm'] at htype <;> cases htype
  · exact .none
  · next htype _ => exact .some htype

/-- A result names a type parameter if its counterpart does. -/
theorem Surface.Peers.result : ∀ a ∈ d.mainType?, ∀ b ∈ d'.mainType?, b.arrayDimensions = a.arrayDimensions ∧
    (Rules.namedParameter b d'.typeScope).isSome = (Rules.namedParameter a d.typeScope).isSome := by
  intro a ha b hb
  have htype := (h.renamed hd).mainType
  rw [ha, hb] at htype
  cases htype with | cons htype _ => ?_
  obtain ⟨hplain, hplain'⟩ := hd.plainNames h
  have hscope : List.Forall₂ (fun _ _ => True) d.typeScope d'.typeScope :=
    hd.typeScope h.aligned fun e e' he => (h.renamed he).bounds.imp fun _ _ _ => trivial
  exact ⟨htype.arrayDimensions hplain hplain',
    isSome_of_rel (htype.namedParameter hplain hplain' hscope)⟩

/-- To the rules, peers are one declaration whose types are written in another way. -/
theorem Surface.Peers.rewritten (hrefs : old.KeepsReferences new) :
    Rules.Rewritten { oldView := old, newView := new, filter := .all } d d' where
  modifiers := hd.modifiers h.aligned
  flags := hd.flags h.aligned
  payload := (congrArg Item.payload (h.renamed hd).item :)
  final := hd.isEffectivelyFinal h.aligned
  result := hd.result h
  superclass := by
    intro a ha
    have hsuper := hd.superclass? h
    rw [ha] at hsuper
    obtain ⟨b, hb, hab⟩ := exists_of_rel_some hsuper
    refine ⟨b, hb, (hrefs d d' hd a ?_ b ?_ hab).imp_right And.right⟩
    · exact List.mem_append_left _ (Option.mem_toList.mpr ha)
    · exact List.mem_append_left _ (Option.mem_toList.mpr hb)
  lost := by
    intro a ha
    obtain ⟨b, hb, hab⟩ := (h.renamed hd).furtherTypes a ha
    exact ⟨b, hb, (hrefs d d' hd a (List.mem_append_right _ ha) b (List.mem_append_right _ hb) hab).imp_right
      And.right⟩
  gained := by
    intro b hb
    obtain ⟨a, ha, hab⟩ := (h.renamed hd).furtherTypes' b hb
    exact ⟨a, ha, (hrefs d d' hd a (List.mem_append_right _ ha) b (List.mem_append_right _ hb) hab).imp Eq.symm
      And.left⟩

end Rules

/-! ## Checks -/

/-- The issues are about the types that are not kept, one about each. -/
theorem map_kind_issues (h : old.primary.Renamed new.primary) (hrefs : old.KeepsReferences new)
    (hold : old.primary.Built) (hnew : new.primary.Built) (hp : old.primary.KeepsPairing new.primary)
    (severities : SeverityTable) :
    (check old new .all severities).issues.map Issue.kind =
      ((old.primary.compare new.primary .all).flatMap fun e =>
        if e.keepsType then [] else [IssueKind.changedType]).filter fun kind => severities kind != .hidden :=
  map_kind_issues_of_peers (fun _ _ hd => hd.rewritten h hrefs)
    (fun _ he => h.ofPeers hp hold.wellFormed hnew.wellFormed he) severities

/-- Of surfaces that are renamings of one another, a check that accepts everything tells one thing only:
that the type of a field or a result is no longer written as it was. -/
theorem check_renamed (hold : old.primary.Built) (hnew : new.primary.Built)
    (h : old.primary.Renamed new.primary) (hp : old.primary.KeepsPairing new.primary)
    (hrefs : old.KeepsReferences new) (severities : SeverityTable) :
    let events := old.primary.compare new.primary .all
    let issues := (check old new .all severities).issues
    (∀ e ∈ events, e.OfPeers old.primary new.primary) ∧ (∀ issue ∈ issues, issue.kind = .changedType) ∧
      (issues = [] ↔ severities .changedType = .hidden ∨ ∀ e ∈ events, e.keepsType = true) := by
  have hkinds := map_kind_issues h hrefs hold hnew hp severities
  refine ⟨fun e he => h.ofPeers hp hold.wellFormed hnew.wellFormed he, fun issue hissue => ?_, ?_⟩
  · have hmem := List.mem_map_of_mem (f := Issue.kind) hissue
    rw [hkinds, List.mem_filter, List.mem_flatMap] at hmem
    obtain ⟨⟨e, _, hmem⟩, _⟩ := hmem
    split at hmem
    · cases hmem
    · exact List.mem_singleton.mp hmem
  · rw [← List.map_eq_nil_iff, hkinds, List.filter_eq_nil_iff]
    constructor
    · intro hnone
      refine or_iff_not_imp_left.mpr fun hshown e he => ?_
      by_contra hkeeps
      refine hnone .changedType (List.mem_flatMap.mpr ⟨e, he, ?_⟩) (bne_iff_ne.mpr hshown)
      rw [if_neg hkeeps]
      exact List.mem_singleton.mpr rfl
    · intro hall kind hmem
      obtain ⟨e, he, hmem⟩ := List.mem_flatMap.mp hmem
      split at hmem
      · cases hmem
      · next hkeeps =>
        cases List.mem_singleton.mp hmem
        rw [hall.resolve_right fun hk => hkeeps (hk e he)]
        decide

/-- A class and a method with a type parameter each, which exchange their names, used in all places where
no rule minds. -/
def Snapshot.box (side : Side) : Snapshot :=
  let type (was now : String) : TypeRef := ⟨side.pick was now⟩
  { packages := [{ name := "p", classes := [
      { name := "p.Box", modifiers := .ofVisibility .publicAccess
        typeParameters := [
          { name := side.pick "T" "S"
            bounds := [⟨"java.lang.Number"⟩, type "java.lang.Comparable<T>" "java.lang.Comparable<S>"] }]
        superclass := some (type "java.util.AbstractList<T>" "java.util.AbstractList<S>")
        interfaces := [type "java.lang.Iterable<T>" "java.lang.Iterable<S>"]
        constructors := [{ modifiers := .ofVisibility .publicAccess, parameters := [{ type := type "T" "S" }] }]
        methods := [
          { MethodSpec.published "pick" with
            typeParameters := [{ name := side.pick "S" "T", bounds := [⟨"java.lang.CharSequence"⟩] }]
            parameters := [{ type := type "T[]" "S[]" },
              { type := type "java.util.Map<T, ? extends S>" "java.util.Map<S, ? extends T>" }]
            returnType := some (type "S" "T")
            throws := [⟨"java.io.IOException"⟩] },
          { MethodSpec.published "size" with returnType := some ⟨"int"⟩ }]
        fields := [.published "name" ⟨"java.lang.String"⟩] }] }] }

/-- The surface of this class, as a check loads it for either side. -/
def Surface.box (side : Side) : Surface :=
  (Snapshot.box side).recipe.build (side.pick 1 2) (side.pick "old.json" "new.json")

theorem renamed_box : (Surface.box .old).Renamed (.box .new) := by decide +kernel

theorem keepsPairing_box : (Surface.box .old).KeepsPairing (.box .new) where
  erasures := fun d d' hd => hd.of_forall₂ (P := fun d d' => List.Forall₂
    (fun p p' => TypeRef.parameterErasure p' = TypeRef.parameterErasure p)
    d.ownTypeParameters d'.ownTypeParameters) (by decide +kernel)
  parameters := fun d d' hd => hd.of_forall₂ (P := fun d d' => d.asParameter?.isSome → ∀ a ∈ d.mainType?,
    ∀ b ∈ d'.mainType?, b.baseName = a.baseName ∨ (Rules.namedParameter a d.typeScope).isSome)
    (by decide +kernel)
  order := fun d d' e e' hd he => he.of_forall₂ <| hd.of_forall₂ (P := fun d d' => List.Forall₂ (fun e e' =>
    d.item.parent = e.item.parent → d.asMethod?.isSome → e.asMethod?.isSome → d.name = e.name →
      (MethodKey.ofDecl d).erased = (MethodKey.ofDecl e).erased →
        Ord.compare (MethodKey.ofDecl d').literal (MethodKey.ofDecl e').literal =
          Ord.compare (MethodKey.ofDecl d).literal (MethodKey.ofDecl e).literal)
    (Surface.box .old).allDecls (Surface.box .new).allDecls) (by decide +kernel)

theorem keepsReferences_box :
    ((Surface.box .old).alone.extend [.box .new]).KeepsReferences (Surface.box .new).alone := by
  intro d d' hd a ha b hb _
  refine .inl ?_
  exact hd.of_forall₂ (P := fun d d' => ∀ a ∈ d.superclass?.toList ++ d.furtherTypes,
    ∀ b ∈ d'.superclass?.toList ++ d'.furtherTypes, a.RenamedIn d.typeScope d'.typeScope b →
      b.baseName = a.baseName) (by decide +kernel) a ha b hb ‹_›

theorem keepsType_box {d d' : Decl} (hd : (Surface.box .old).Peers (.box .new) d d') :
    Rules.keepsType d d' = true :=
  hd.of_forall₂ (P := fun d d' => Rules.keepsType d d' = true) (by decide +kernel)

/-- Two type parameters exchange their names. -/
theorem check_renamed_box :
    let s := Surface.box .old
    let t := Surface.box .new
    s.Renamed t ∧ s.KeepsPairing t ∧ (s.alone.extend [t]).KeepsReferences t.alone ∧
      (s.check t .all .standard).issues = [] := by
  refine ⟨renamed_box, keepsPairing_box, keepsReferences_box, ?_⟩
  have hold : (Surface.box .old).Built := ⟨_, _, _, rfl⟩
  have hnew : (Surface.box .new).Built := ⟨_, _, _, rfl⟩
  have hcheck := check_renamed hold hnew renamed_box keepsPairing_box keepsReferences_box .standard
  obtain ⟨hpeers, _, hnone⟩ := hcheck
  refine hnone.mpr (.inr fun e he => ?_)
  have hpeers := hpeers e he
  cases e with
  | matched d d' => exact keepsType_box hpeers
  | removed | added => exact hpeers.elim

/-- A class with a field that holds a value of the type parameter. -/
def Snapshot.holder (t : String) : Snapshot :=
  { packages := [{ name := "p", classes := [
      { name := "p.C", modifiers := .ofVisibility .publicAccess, typeParameters := [{ name := t }]
        fields := [.published "f" ⟨t⟩] }] }] }

/-- The field keeps its type, but the check sees another text. -/
theorem check_renamed_holder : ¬∀ (s t : Surface), s.Built → t.Built → s.isPartial = false →
    t.isPartial = false → s.Renamed t → ∀ severities, (s.check t .all severities).issues = [] := by
  intro h
  have hold : ((Snapshot.holder "T").recipe.build 1 "old.json").Built := ⟨_, _, _, rfl⟩
  have hnew : ((Snapshot.holder "U").recipe.build 2 "new.json").Built := ⟨_, _, _, rfl⟩
  have hnone := h _ _ hold hnew (by decide +kernel) (by decide +kernel) (by decide +kernel) .standard
  exact absurd hnone (by decide +kernel)

end ApiSurface
