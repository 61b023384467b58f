import ApiSurface.Proofs.AlignedChecks
import ApiSurface.Proofs.RespacedSurfaces

/-! # Checks of respaced surfaces

A check of a surface against a respacing of it matches every declaration with its peer, and to almost all
rules the types of peers are the same. The one that is not blind to spaces compares the results of methods:
where these name a type parameter, it compares the texts of its bounds. -/
namespace ApiSurface

open Surface Comparison

variable {s t : Surface} {d d' : Decl}

/-! ## Types -/

def TypeParameter.Respaced (p p' : TypeParameter) : Prop := p'.restyled .squeezing = p.restyled .squeezing

namespace TypeRef

variable {a b : TypeRef} {scope scope' : List TypeParameter}

theorem baseName_of_squeezed_eq (h : b.squeezed = a.squeezed) : b.baseName = a.baseName := by
  rw [← baseName_squeezed, h, baseName_squeezed]

theorem arrayDimensions_of_squeezed_eq (h : b.squeezed = a.squeezed) :
    b.arrayDimensions = a.arrayDimensions := by
  rw [← arrayDimensions_squeezed, h, arrayDimensions_squeezed]

/-- A comparison that leaves out all blanks leaves out those that mean nothing. -/
theorem sameText_of_squeezed_eq (h : b.squeezed = a.squeezed) : Rules.sameText a b = true := by
  have hfilter : ∀ type : TypeRef, type.squeezed.text.toList.filter (fun c => !Text.isBlank c) =
      type.text.toList.filter fun c => !Text.isBlank c := fun type => by
    rw [toList_squeezed, filter_squeeze]
  rw [Rules.sameText, ← hfilter a, ← hfilter b, h]
  exact beq_self_eq_true _

theorem parameterErasure_restyled (p : TypeParameter) :
    parameterErasure (p.restyled .squeezing) = parameterErasure p := by
  have hbounds : (p.restyled .squeezing).bounds.head? = p.bounds.head?.map squeezed := List.head?_map
  unfold parameterErasure
  rw [hbounds]
  cases p.bounds.head? with
  | none => rfl
  | some bound =>
    simp only [Option.map_some, baseName_squeezed, erased_squeezed]
    rfl

/-- Both types name a type parameter, at the same place of their scopes, or neither does. -/
theorem namedParameter_of_squeezed_eq (h : b.squeezed = a.squeezed)
    (hscope : List.Forall₂ TypeParameter.Respaced scope scope') :
    Option.Rel TypeParameter.Respaced (Rules.namedParameter a scope) (Rules.namedParameter b scope') := by
  refine find?_rel hscope fun p p' hp => ?_
  have hname : p'.name = p.name := (congrArg TypeParameter.name (hp :) :)
  rw [hname, baseName_of_squeezed_eq h]

theorem erasureIn_of_squeezed_eq (h : b.squeezed = a.squeezed)
    (hscope : List.Forall₂ TypeParameter.Respaced scope scope') : b.erasureIn scope' = a.erasureIn scope := by
  have herasure : ∀ p p', TypeParameter.Respaced p p' → parameterErasure p' = parameterErasure p := by
    intro p p' hp
    rw [← parameterErasure_restyled p', hp, parameterErasure_restyled]
  exact erasureIn_of_rel (rel_imp (namedParameter_of_squeezed_eq h hscope) herasure)
    (.inl (baseName_of_squeezed_eq h)) (arrayDimensions_of_squeezed_eq h)

end TypeRef

/-! ## Peers in respaced surfaces -/

namespace Surface.Respaced

variable (h : s.Respaced t)

include h

theorem forall₂_items :
    List.Forall₂ (fun d d' : Decl => d'.item.squeezed = d.item.squeezed) s.allDecls t.allDecls := by
  have hitems := congrArg Array.toList h.items
  rw [Array.toList_map, Array.toList_map, ← map_item_allDecls, ← map_item_allDecls, List.map_map,
    List.map_map, eq_comm, ← List.forall₂_eq_eq_eq, List.forall₂_map_left_iff,
    List.forall₂_map_right_iff] at hitems
  exact hitems.imp fun _ _ hd => hd.symm

theorem aligned : s.Aligned t where
  packages := congrArg _ h.packages
  classes := congrArg _ h.classes
  items := h.forall₂_items.imp fun d d' hd => by rw [← d'.item.untyped_squeezed, hd, d.item.untyped_squeezed]

end Surface.Respaced

namespace Surface.Peers

variable (hd : s.Peers t d d') (h : s.Respaced t)

include hd h

theorem settled :
    (d'.item.payload.restyled .squeezing).settled = (d.item.payload.restyled .squeezing).settled :=
  congrArg Item.payload (hd.of_forall₂ h.forall₂_items)

theorem ownTypeParameters : List.Forall₂ TypeParameter.Respaced d.ownTypeParameters d'.ownTypeParameters := by
  let own (p : Payload) : List TypeParameter :=
    Decl.ownTypeParameters { d with item := { d.item with payload := p } }
  have hown : ∀ p : Payload, own (p.restyled .squeezing).settled = (own p).map (·.restyled .squeezing) := by
    intro p
    cases p <;> rfl
  have hsame := congrArg own (hd.settled h)
  rw [hown, hown, eq_comm, ← List.forall₂_eq_eq_eq, List.forall₂_map_left_iff,
    List.forall₂_map_right_iff] at hsame
  exact hsame.imp fun _ _ hp => hp.symm

theorem mainType? : Option.Rel (fun a b : TypeRef => b.squeezed = a.squeezed) d.mainType? d'.mainType? := by
  let main (p : Payload) : Option TypeRef := Decl.mainType? { d with item := { d.item with payload := p } }
  have hmain : ∀ p : Payload, main (p.restyled .squeezing).settled = (main p).map TypeRef.squeezed := by
    intro p
    cases p <;> rfl
  have hsame : d'.mainType?.map TypeRef.squeezed = d.mainType?.map TypeRef.squeezed := by
    have hsame := congrArg main (hd.settled h)
    rwa [hmain, hmain] at hsame
  cases hm : d.mainType? with
  | none =>
    rw [hm, Option.map_none, Option.map_eq_none_iff] at hsame
    rw [hsame]
    exact .none
  | some a =>
    rw [hm, Option.map_some] at hsame
    obtain ⟨b, hb, hba⟩ := Option.map_eq_some_iff.mp hsame
    rw [hb]
    exact .some hba

theorem furtherTypes : (d'.furtherTypes.map TypeRef.squeezed).Perm (d.furtherTypes.map TypeRef.squeezed) := by
  let further (p : Payload) : List TypeRef :=
    Decl.furtherTypes { d with item := { d.item with payload := p } }
  have hfurther : ∀ p : Payload, further (p.restyled .squeezing).settled =
      TypeRef.canonicalSort ((further p).map TypeRef.squeezed) := by
    intro p
    cases p <;> first | rfl | exact List.mergeSort_nil.symm
  have hsame : TypeRef.canonicalSort (d'.furtherTypes.map TypeRef.squeezed) =
      TypeRef.canonicalSort (d.furtherTypes.map TypeRef.squeezed) := by
    have hsame := congrArg further (hd.settled h)
    rwa [hfurther, hfurther] at hsame
  -- A list and its canonical order hold the same.
  have hperm := List.mergeSort_perm (d'.furtherTypes.map TypeRef.squeezed)
    fun a b => (a.canonicalOrder b).isLE
  exact hperm.symm.trans ((List.Perm.of_eq hsame).trans (List.mergeSort_perm _ _))

theorem typeScope_respaced : List.Forall₂ TypeParameter.Respaced d.typeScope d'.typeScope :=
  hd.typeScope h.aligned fun _ _ he => he.ownTypeParameters h

/-- Main types of peers are the same once they are squeezed. -/
theorem squeezed_eq {a b : TypeRef} (ha : a ∈ d.mainType?) (hb : b ∈ d'.mainType?) :
    b.squeezed = a.squeezed := by
  have htype := hd.mainType? h
  rw [ha, hb] at htype
  cases htype with | some htype => exact htype

end Surface.Peers

/-! ## Rules -/

/-- The new bounds of the type parameter that a result names are written as the old ones. -/
def Decl.KeepsNamedBounds (d d' : Decl) : Prop :=
  d.asMethod?.isSome → ∀ was ∈ d.mainType?, ∀ now ∈ d'.mainType?, ∀ p ∈ Rules.namedParameter was d.typeScope,
    ∀ p' ∈ Rules.namedParameter now d'.typeScope, p'.bounds = p.bounds

namespace Surface.Peers

/-- To the rules, peers are one declaration whose types are written in another way. -/
theorem rewritten_of_respaced {old new : View} (hd : old.primary.Peers new.primary d d')
    (h : old.primary.Respaced new.primary) :
    Rules.Rewritten { oldView := old, newView := new, filter := .all } d d' where
  modifiers := hd.modifiers h.aligned
  flags := hd.flags h.aligned
  payload := (congrArg Item.payload (h.aligned.untyped hd) :)
  final := hd.isEffectivelyFinal h.aligned
  result := by
    intro a ha b hb
    have hsqueezed := hd.squeezed_eq h ha hb
    exact ⟨TypeRef.arrayDimensions_of_squeezed_eq hsqueezed,
      isSome_of_rel (TypeRef.namedParameter_of_squeezed_eq hsqueezed (hd.typeScope_respaced h))⟩
  superclass := by
    intro a ha
    have hsuper := hd.superclass?_rel h.aligned (hd.mainType? h)
    rw [ha] at hsuper
    obtain ⟨b, hb, hsqueezed⟩ := exists_of_rel_some hsuper
    exact ⟨b, hb, .inl (TypeRef.baseName_of_squeezed_eq hsqueezed)⟩
  lost := by
    intro a ha
    obtain ⟨b, hb, hsqueezed⟩ := List.mem_map.mp ((hd.furtherTypes h).mem_iff.mpr (List.mem_map_of_mem ha))
    exact ⟨b, hb, .inl (TypeRef.baseName_of_squeezed_eq hsqueezed)⟩
  gained := by
    intro b hb
    obtain ⟨a, ha, hsqueezed⟩ := List.mem_map.mp ((hd.furtherTypes h).mem_iff.mp (List.mem_map_of_mem hb))
    exact ⟨a, ha, .inl (TypeRef.baseName_of_squeezed_eq hsqueezed)⟩

variable (hd : s.Peers t d d') (h : s.Respaced t)

include hd h

/-- A type is kept unless it is a result that names a type parameter whose bounds are written otherwise. -/
theorem keepsType_iff : Rules.keepsType d d' = true ↔ d.KeepsNamedBounds d' := by
  unfold Decl.KeepsNamedBounds
  rcases rel_cases (hd.mainType? h) with ⟨ha, hb⟩ | ⟨a, b, ha, hb, hsqueezed⟩
  · rw [Rules.keepsType_of_none (.inl ha), ha]
    simp
  · have htext := TypeRef.sameText_of_squeezed_eq hsqueezed
    by_cases hmethod : d.asMethod?.isSome
    · rw [Rules.keepsType_of_result hmethod ha hb, Rules.keepsResult]
      rcases rel_cases (TypeRef.namedParameter_of_squeezed_eq hsqueezed (hd.typeScope_respaced h)) with
        ⟨hp, hp'⟩ | ⟨p, p', hp, hp', -⟩
      · simp [ha, hb, hp, htext]
      · simp only [ha, hb, hp, hp', hmethod, Option.mem_def, Option.some.injEq, forall_eq', forall_const,
          beq_iff_eq]
        exact eq_comm
    · have hkept : Rules.keepsType d d' = true := by simp [Rules.keepsType, ha, hb, hmethod, htext]
      exact iff_of_true hkept fun h => absurd h hmethod

end Surface.Peers

theorem Surface.Respaced.pairsAlike (h : s.Respaced t) (horder : s.KeepsOrder t) : s.PairsAlike t where
  erased := fun _ _ hd _ _ ha _ hb =>
    TypeRef.erasureIn_of_squeezed_eq (hd.squeezed_eq h ha hb) (hd.typeScope_respaced h)
  order := horder

/-! ## Checks -/

/-- A check of a respaced surface that accepts everything matches peers only, and tells one thing only: that
the bounds of a type parameter which a result names are no longer written as they were. -/
theorem check_respaced {old new : View} {r r' : Recipe} {serial serial' : Nat} {location location' : String}
    (hold : old.primary = r.build serial location) (hnew : new.primary = r'.build serial' location')
    (h : r.Respaced r') (hcopies : r'.copies = r.copies) (horder : old.primary.KeepsOrder new.primary)
    (severities : SeverityTable) :
    let events := old.primary.compare new.primary .all
    let issues := (check old new .all severities).issues
    (∀ e ∈ events, e.OfPeers old.primary new.primary) ∧ (∀ issue ∈ issues, issue.kind = .changedType) ∧
      (issues = [] ↔
        severities .changedType = .hidden ∨ ∀ d d', .matched d d' ∈ events → d.KeepsNamedBounds d') := by
  have hrespaced : old.primary.Respaced new.primary := by
    rw [hold, hnew]
    exact h.build hcopies serial serial' location location'
  have hpeers : ∀ e ∈ old.primary.compare new.primary .all, e.OfPeers old.primary new.primary := by
    have hbuilt : old.primary.Built := ⟨r, serial, location, hold⟩
    have hbuilt' : new.primary.Built := ⟨r', serial', location', hnew⟩
    exact fun e he =>
      hrespaced.aligned.ofPeers (hrespaced.pairsAlike horder) hbuilt.wellFormed hbuilt'.wellFormed he
  have hchecked := changedType_of_peers (fun _ _ hd => hd.rewritten_of_respaced hrespaced) hpeers severities
  refine ⟨hpeers, hchecked.1, hchecked.2.trans (or_congr_right ?_)⟩
  refine ⟨fun hkept d d' he => ?_, fun hkept e he => ?_⟩
  · exact ((hpeers _ he).keepsType_iff hrespaced).mp (hkept _ he)
  · cases e with
    | matched d d' => exact ((hpeers _ he).keepsType_iff hrespaced).mpr (hkept d d' he)
    | removed | added => rfl

/-- A class that mentions a type wherever one can stand. Its superclass is hidden and leaves a method to it,
and it has two methods that are one after erasure. -/
def Snapshot.mentioning (type : TypeRef) : Snapshot :=
  let method (name : String) (parameter : TypeRef) : MethodSpec :=
    { MethodSpec.published name with
      parameters := [{ type := parameter }], returnType := some type, throws := [type] }
  { packages := [{ name := "p", classes := [
      { name := "p.H", modifiers := .ofVisibility .publicAccess, flags := { hidden := true }
        methods := [method "copied" type] },
      { name := "p.C", modifiers := .ofVisibility .publicAccess, superclass := some type, interfaces := [type]
        typeParameters := [{ name := "T", bounds := [type] }]
        methods := [method "m" type, method "m" ⟨"p.H<V>"⟩]
        fields := [.published "f" type] }] }] }

theorem respaced_mentioning {a b : TypeRef} (h : a.squeezed = b.squeezed) :
    (Snapshot.mentioning a).recipe.Respaced (Snapshot.mentioning b).recipe := by
  have htype : Restyling.squeezing.type a = Restyling.squeezing.type b := h
  simp [Recipe.Respaced, Recipe.restyled, Snapshot.mentioning, Snapshot.recipe, BuildCall.restyled,
    PackageSpec.restyled, ClassSpec.restyled, MethodSpec.restyled, FieldSpec.restyled, FieldSpec.published,
    ParameterSpec.restyled, TypeParameter.restyled, htype]

/-- Spaces next to commas and brackets are of no interest. -/
theorem check_respaced_mentioning :
    let a : TypeRef := ⟨"p.H<K,V>"⟩
    let b : TypeRef := ⟨"p.H< K, V >"⟩
    let r := (Snapshot.mentioning a).recipe
    let r' := (Snapshot.mentioning b).recipe
    let s := r.build 1 "old.json"
    let t := r'.build 2 "new.json"
    r.Respaced r' ∧ r'.copies = r.copies ∧ r.copies.length = 1 ∧ s.KeepsOrder t ∧
      (s.check t .all .standard).issues = [] := by
  intro a b r r' s t
  have hsqueezed : a.squeezed = b.squeezed := by decide +kernel
  have h : r.Respaced r' := respaced_mentioning hsqueezed
  have hcopies : r'.copies = r.copies := by decide +kernel
  have horder : s.KeepsOrder t := fun d d' e e' hd he => he.of_forall₂ <| hd.of_forall₂
    (P := fun d d' => List.Forall₂ (fun e e' =>
      d.item.parent = e.item.parent → d.asMethod?.isSome → e.asMethod?.isSome → d.name = e.name →
        (MethodKey.ofDecl d).erased = (MethodKey.ofDecl e).erased →
          Ord.compare (MethodKey.ofDecl d').literal (MethodKey.ofDecl e').literal =
            Ord.compare (MethodKey.ofDecl d).literal (MethodKey.ofDecl e).literal) s.allDecls t.allDecls)
    (by decide +kernel)
  refine ⟨h, hcopies, by decide +kernel, horder, ?_⟩
  have hold : (s.alone.extend [t]).primary = r.build 1 "old.json" := rfl
  have hnew : t.alone.primary = r'.build 2 "new.json" := rfl
  obtain ⟨hpeers, _, hnone⟩ := check_respaced hold hnew h hcopies horder .standard
  refine hnone.mpr (.inr fun d d' he => ?_)
  have hd := hpeers _ he
  exact (hd.keepsType_iff (h.build hcopies 1 2 "old.json" "new.json")).mp
    (hd.of_forall₂ (P := fun d d' => Rules.keepsType d d' = true) (by decide +kernel))

def Recipe.returning (bound : TypeRef) : Recipe :=
  { calls := [.packageSpec { name := "p", classes := [
      { name := "p.C", modifiers := .ofVisibility .publicAccess
        methods := [
          { MethodSpec.published "m" with
            typeParameters := [{ name := "T", bounds := [bound] }], returnType := some ⟨"T"⟩ }] }] }] }

/-- A space in its bound makes another type of the result. -/
theorem check_respaced_bound : ¬∀ r r' : Recipe, r.Respaced r' → ∀ severities,
    ((r.build 1 "old.json").check (r'.build 2 "new.json") .all severities).issues = [] := by
  intro h
  have hbound : Restyling.squeezing.type ⟨"java.util.Map<K,V>"⟩ =
      Restyling.squeezing.type ⟨"java.util.Map<K, V>"⟩ := by
    decide +kernel
  have hrespaced : (Recipe.returning ⟨"java.util.Map<K,V>"⟩).Respaced
      (.returning ⟨"java.util.Map<K, V>"⟩) := by
    simp [Recipe.Respaced, Recipe.restyled, Recipe.returning, BuildCall.restyled, PackageSpec.restyled,
      ClassSpec.restyled, MethodSpec.restyled, TypeParameter.restyled, hbound]
  exact absurd (h _ _ hrespaced .standard) (by decide +kernel)

end ApiSurface
