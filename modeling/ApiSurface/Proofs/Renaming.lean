import ApiSurface.Proofs.Alignment
import ApiSurface.Proofs.TypeNames

/-! # Renamed type parameters

Two surfaces are renamings of one another if they declare the same things in the same places, and every
type of the one is the type of the other with the type parameters of the one in the place of those of the
other. Binders count, not names: two names correspond if they stand for the same type parameter where
they are written, or are equal and stand for none. -/
namespace ApiSurface

open Arena

variable {scope scope' : List TypeParameter} {n n' : String} {a b : TypeRef}

/-! ## Names that stand for the same -/

/-- The two names stand for type parameters at the same place, each the first one of its name, or they
are equal and stand for none. -/
def SameName : List TypeParameter → List TypeParameter → String → String → Prop
  | [], [], n, n' => n = n'
  | p :: scope, p' :: scope', n, n' =>
    p.name = n ∧ p'.name = n' ∨ p.name ≠ n ∧ p'.name ≠ n' ∧ SameName scope scope' n n'
  | [], _ :: _, _, _ => False
  | _ :: _, [], _, _ => False

instance SameName.decidable : (scope scope' : List TypeParameter) → DecidableRel (SameName scope scope')
  | [], [] => fun n n' => inferInstanceAs (Decidable (n = n'))
  | p :: scope, p' :: scope' => fun n n' =>
    have := SameName.decidable scope scope' n n'
    inferInstanceAs (Decidable
      (p.name = n ∧ p'.name = n' ∨ p.name ≠ n ∧ p'.name ≠ n' ∧ SameName scope scope' n n'))
  | [], _ :: _ => fun _ _ => inferInstanceAs (Decidable False)
  | _ :: _, [] => fun _ _ => inferInstanceAs (Decidable False)

/-- What stands for a type parameter is found at the same place of either scope. -/
theorem SameName.find? {S : TypeParameter → TypeParameter → Prop} (hS : List.Forall₂ S scope scope')
    (h : SameName scope scope' n n') :
    (n = n' ∧ (scope.find? fun p => p.name == n) = none ∧ (scope'.find? fun p => p.name == n') = none) ∨
      ∃ p p', (scope.find? fun p => p.name == n) = some p ∧
        (scope'.find? fun p => p.name == n') = some p' ∧ S p p' := by
  induction hS with
  | nil => exact .inl ⟨h, rfl, rfl⟩
  | @cons p p' _ _ hp _ ih =>
    rcases h with ⟨hn, hn'⟩ | ⟨hn, hn', h⟩
    · rw [List.find?_cons_of_pos (by simpa using hn), List.find?_cons_of_pos (by simpa using hn')]
      exact .inr ⟨p, p', rfl, rfl, hp⟩
    · rw [List.find?_cons_of_neg (by simpa using hn), List.find?_cons_of_neg (by simpa using hn')]
      exact ih h

/-- The names of all type parameters are plain. -/
def PlainNames (scope : List TypeParameter) : Prop := ∀ p ∈ scope, TypeRef.IsPlain p.name.toList

theorem SameName.plainly (hscope : PlainNames scope) (hscope' : PlainNames scope') :
    TypeRef.Plainly (SameName scope scope') := by
  intro n n' h
  induction scope generalizing scope' with
  | nil =>
    cases scope' with
    | nil => exact .inl h
    | cons => exact h.elim
  | cons p scope ih =>
    cases scope' with
    | nil => exact h.elim
    | cons p' scope' =>
      rcases h with ⟨rfl, rfl⟩ | ⟨_, _, h⟩
      · exact .inr ⟨hscope _ List.mem_cons_self, hscope' _ List.mem_cons_self⟩
      · exact ih (fun q hq => hscope q (List.mem_cons_of_mem _ hq))
          (fun q hq => hscope' q (List.mem_cons_of_mem _ hq)) h

/-! ## Types -/

/-- The second type is the first one with the type parameters of the second scope in the place of those of
the first one. -/
def TypeRef.RenamedIn (scope scope' : List TypeParameter) (a b : TypeRef) : Prop :=
  a.RespelledAs (SameName scope scope') b

instance : DecidableRel (TypeRef.RenamedIn scope scope') := fun a b =>
  inferInstanceAs (Decidable (List.Forall₂ (TypeRef.Piece.Stands (SameName scope scope'))
    (TypeRef.pieces a.text.toList) (TypeRef.pieces b.text.toList)))

namespace TypeRef.RenamedIn

variable (h : a.RenamedIn scope scope' b) (hscope : PlainNames scope) (hscope' : PlainNames scope')

include h hscope hscope'

theorem arrayDimensions : b.arrayDimensions = a.arrayDimensions :=
  RespelledAs.arrayDimensions h (SameName.plainly hscope hscope')

/-- Both types name a type parameter, at the same place of their scopes, or neither does. -/
theorem namedParameter {S : TypeParameter → TypeParameter → Prop} (hS : List.Forall₂ S scope scope') :
    Option.Rel S (Rules.namedParameter a scope) (Rules.namedParameter b scope') := by
  have hplain : ∀ {scope : List TypeParameter} {type : TypeRef} {p : TypeParameter}, PlainNames scope →
      Rules.namedParameter type scope = some p → IsPlain type.baseName.toList := by
    intro scope type p hscope hp
    have hname : p.name = type.baseName := by simpa using List.find?_some hp
    exact hname ▸ hscope p (List.mem_of_find?_eq_some hp)
  have hsame : ∀ {o o' : Option TypeParameter}, Rules.namedParameter a scope = o →
      Rules.namedParameter b scope' = o' → SameName scope scope' a.baseName b.baseName →
      Option.Rel S o o' := by
    rintro o o' rfl rfl hname
    rcases hname.find? hS with ⟨_, ha, hb⟩ | ⟨p, p', ha, hb, hp⟩
    · rw [Rules.namedParameter, Rules.namedParameter, ha, hb]
      exact .none
    · rw [Rules.namedParameter, Rules.namedParameter, ha, hb]
      exact .some hp
  cases ha : Rules.namedParameter a scope with
  | some p => exact hsame ha rfl (RespelledAs.baseName h (hplain hscope ha))
  | none =>
    cases hb : Rules.namedParameter b scope' with
    | some p' => exact hsame ha hb (RespelledAs.baseName_of_plain h (hplain hscope' hb))
    | none => exact .none

/-- Erasure does not see a renaming that keeps the erasures of the type parameters, unless the base name
changes although it names none of them. -/
theorem erasureIn (hS : List.Forall₂ (fun p p' => parameterErasure p' = parameterErasure p) scope scope')
    (hbase : b.baseName = a.baseName ∨ (Rules.namedParameter a scope).isSome) :
    b.erasureIn scope' = a.erasureIn scope := by
  exact erasureIn_of_rel (namedParameter h hscope hscope' hS) hbase (arrayDimensions h hscope hscope')

end TypeRef.RenamedIn

/-! ## Declarations -/

namespace Decl

/-- The second declaration is the first one with type parameters renamed. The interfaces of a class, and
the exceptions of a method, may stand in another order, because their order is one of names. -/
structure Renamed (d d' : Decl) : Prop where
  item : d'.item.untyped = d.item.untyped
  plain : PlainNames (d.ownTypeParameters ++ d'.ownTypeParameters)
  bounds : List.Forall₂ (fun p p' : TypeParameter =>
    List.Forall₂ (TypeRef.RenamedIn d.typeScope d'.typeScope) p.bounds p'.bounds)
    d.ownTypeParameters d'.ownTypeParameters
  mainType : List.Forall₂ (TypeRef.RenamedIn d.typeScope d'.typeScope) d.mainType?.toList d'.mainType?.toList
  furtherTypes : ∀ a ∈ d.furtherTypes, ∃ b ∈ d'.furtherTypes, a.RenamedIn d.typeScope d'.typeScope b
  furtherTypes' : ∀ b ∈ d'.furtherTypes, ∃ a ∈ d.furtherTypes, a.RenamedIn d.typeScope d'.typeScope b

instance : DecidableRel Renamed := fun d d' =>
  have : DecidablePred PlainNames := fun scope =>
    inferInstanceAs (Decidable (∀ p ∈ scope, TypeRef.IsPlain p.name.toList))
  decidable_of_iff
    (d'.item.untyped = d.item.untyped ∧ PlainNames (d.ownTypeParameters ++ d'.ownTypeParameters) ∧
      List.Forall₂ (fun p p' : TypeParameter =>
        List.Forall₂ (TypeRef.RenamedIn d.typeScope d'.typeScope) p.bounds p'.bounds)
        d.ownTypeParameters d'.ownTypeParameters ∧
      List.Forall₂ (TypeRef.RenamedIn d.typeScope d'.typeScope) d.mainType?.toList d'.mainType?.toList ∧
      (∀ a ∈ d.furtherTypes, ∃ b ∈ d'.furtherTypes, a.RenamedIn d.typeScope d'.typeScope b) ∧
      ∀ b ∈ d'.furtherTypes, ∃ a ∈ d.furtherTypes, a.RenamedIn d.typeScope d'.typeScope b)
    ⟨fun h => ⟨h.1, h.2.1, h.2.2.1, h.2.2.2.1, h.2.2.2.2.1, h.2.2.2.2.2⟩,
      fun h => ⟨h.item, h.plain, h.bounds, h.mainType, h.furtherTypes, h.furtherTypes'⟩⟩

end Decl

/-- The second surface is the first one with type parameters renamed. -/
structure Surface.Renamed (s t : Surface) : Prop where
  packages : t.packages.toList = s.packages.toList
  classes : t.classes.toList = s.classes.toList
  decls : List.Forall₂ Decl.Renamed s.allDecls t.allDecls

instance : DecidableRel Surface.Renamed := fun s t =>
  decidable_of_iff
    (t.packages.toList = s.packages.toList ∧ t.classes.toList = s.classes.toList ∧
      List.Forall₂ Decl.Renamed s.allDecls t.allDecls)
    ⟨fun h => ⟨h.1, h.2.1, h.2.2⟩, fun h => ⟨h.packages, h.classes, h.decls⟩⟩

/-! ## Peers in renamed surfaces -/

namespace Surface.Renamed

variable {s t : Surface} {d d' : Decl} (h : s.Renamed t)

include h

theorem renamed (hd : s.Peers t d d') : d.Renamed d' := hd.of_forall₂ h.decls

theorem aligned : s.Aligned t :=
  ⟨h.packages, h.classes, h.decls.imp fun _ _ hd => hd.item⟩

end Surface.Renamed

theorem Surface.Peers.plainNames {s t : Surface} {d d' : Decl} (hd : s.Peers t d d') (h : s.Renamed t) :
    PlainNames d.typeScope ∧ PlainNames d'.typeScope := by
  have hscope : List.Forall₂ (fun p p' : TypeParameter =>
      TypeRef.IsPlain p.name.toList ∧ TypeRef.IsPlain p'.name.toList) d.typeScope d'.typeScope := by
    refine hd.typeScope h.aligned fun e e' he => ?_
    have hrenamed := h.renamed he
    refine List.forall₂_iff_zip.mpr ⟨hrenamed.bounds.length_eq, fun hmem => ?_⟩
    obtain ⟨hp, hp'⟩ := List.of_mem_zip hmem
    exact ⟨hrenamed.plain _ (List.mem_append_left _ hp), hrenamed.plain _ (List.mem_append_right _ hp')⟩
  refine ⟨fun p hp => ?_, fun p' hp' => ?_⟩
  · obtain ⟨_, _, hplain, _⟩ := exists_mem_right hscope hp
    exact hplain
  · obtain ⟨_, _, _, hplain⟩ := exists_mem_left hscope hp'
    exact hplain

end ApiSurface
