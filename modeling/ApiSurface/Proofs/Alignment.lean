import ApiSurface.Proofs.Declarations
import ApiSurface.Proofs.Related
import ApiSurface.Proofs.Silence

/-! # Aligned surfaces

Two surfaces are aligned if they declare the same things in the same places and differ in nothing but types.
Wherever the one has a declaration, the other one has its peer, which tells the same of everything but its
types. All that a declaration refers to is a peer of what its own peer refers to. -/
namespace ApiSurface

open Arena

/-- The second surface declares what the first one declares, at the same places, except for types. -/
structure Surface.Aligned (s t : Surface) : Prop where
  packages : t.packages.toList = s.packages.toList
  classes : t.classes.toList = s.classes.toList
  items : List.Forall₂ (fun d d' : Decl => d'.item.untyped = d.item.untyped) s.allDecls t.allDecls

/-- What holds place by place holds of peers. -/
theorem Surface.Peers.of_forall₂ {s t : Surface} {d d' : Decl} (hd : s.Peers t d d')
    {P : Decl → Decl → Prop} (h : List.Forall₂ P s.allDecls t.allDecls) : P d d' := by
  have hleft : s.allDecls[d.id.index]? = some d := by
    rw [getElem?_allDecls]
    exact hd.left
  have hright : t.allDecls[d.id.index]? = some d' := by
    rw [getElem?_allDecls, ← hd.id]
    exact hd.right
  obtain ⟨hi, hget⟩ := List.getElem?_eq_some_iff.mp hleft
  obtain ⟨hi', hget'⟩ := List.getElem?_eq_some_iff.mp hright
  have hplaces := h.get hi hi'
  rwa [List.get_eq_getElem, List.get_eq_getElem, hget, hget'] at hplaces

/-- Types erase alike if what they name does: a type parameter of the same erasure each, or the same type. -/
theorem TypeRef.erasureIn_of_rel {scope scope' : List TypeParameter} {a b : TypeRef}
    (hnamed : Option.Rel (fun p p' => parameterErasure p' = parameterErasure p)
      (Rules.namedParameter a scope) (Rules.namedParameter b scope'))
    (hbase : b.baseName = a.baseName ∨ (Rules.namedParameter a scope).isSome)
    (hdims : b.arrayDimensions = a.arrayDimensions) : b.erasureIn scope' = a.erasureIn scope := by
  unfold Rules.namedParameter at hnamed hbase
  unfold TypeRef.erasureIn
  rcases rel_cases hnamed with ⟨ha, hb⟩ | ⟨p, p', ha, hb, hp⟩
  · rw [ha] at hbase
    rcases hbase with hbase | hbase
    · rw [ha, hb]
      simp only [erased, hbase, hdims]
    · cases hbase
  · rw [ha, hb]
    simp only [hp, hdims]

/-! ## Peers in aligned surfaces -/

namespace Surface.Aligned

variable {s t : Surface} {d d' : Decl} (h : s.Aligned t)

include h

theorem size_eq : t.size = s.size := by
  rw [← length_allDecls, ← length_allDecls, h.items.length_eq]

theorem untyped (hd : s.Peers t d d') : d'.item.untyped = d.item.untyped := hd.of_forall₂ h.items

/-- Wherever the one surface has a declaration the other one has its peer. -/
theorem decl? (id : ItemId) : Option.Rel (s.Peers t) (s.decl? id) (t.decl? id) := by
  have hsize := h.size_eq
  have hnone : ∀ u : Surface, u.decl? id = none ↔ u.size ≤ id.index := by
    intro u
    rw [Surface.decl?, Option.map_eq_none_iff, Array.getElem?_eq_none_iff]
    rfl
  cases hd : s.decl? id with
  | none =>
    have hd' : t.decl? id = none := by
      rw [hnone, hsize]
      exact (hnone s).mp hd
    rw [hd']
    exact .none
  | some d =>
    cases hd' : t.decl? id with
    | none =>
      rw [hnone, hsize, ← hnone s, hd] at hd'
      cases hd'
    | some d' =>
      have hid : d.id = id := (decl?_eq_some hd).2.1
      have hid' : d'.id = id := (decl?_eq_some hd').2.1
      exact .some ⟨by rw [Declares, hid]; exact hd, by rw [Declares, hid']; exact hd', hid'.trans hid.symm⟩

theorem forall₂_decls (ids : List ItemId) : List.Forall₂ (s.Peers t) (s.decls ids) (t.decls ids) := by
  induction ids with
  | nil => exact .nil
  | cons id rest ih =>
    unfold Surface.decls at ih ⊢
    rcases rel_cases (h.decl? id) with ⟨hd, hd'⟩ | ⟨d, d', hd, hd', hpeers⟩
    · rwa [List.filterMap_cons_none hd, List.filterMap_cons_none hd']
    · rw [List.filterMap_cons_some hd, List.filterMap_cons_some hd']
      exact .cons hpeers ih

theorem bind_decl? (o : Option ItemId) : Option.Rel (s.Peers t) (o.bind s.decl?) (o.bind t.decl?) := by
  cases o with
  | none => exact .none
  | some id => exact h.decl? id

theorem findPackage? (name : String) :
    Option.Rel (s.Peers t) (s.findPackage? name) (t.findPackage? name) := by
  have hentry : t.packages[name]? = s.packages[name]? :=
    (Std.TreeMap.equiv_iff_toList_eq.mpr h.packages).getElem?_eq
  unfold Surface.findPackage?
  rw [hentry]
  exact h.bind_decl? _

end Surface.Aligned

namespace Surface.Peers

variable {s t : Surface} {d d' : Decl} (hd : s.Peers t d d') (h : s.Aligned t)

include hd h

theorem modifiers : d'.modifiers = d.modifiers := (congrArg Item.modifiers (h.untyped hd) :)

theorem flags : d'.flags = d.flags := (congrArg Item.flags (h.untyped hd) :)

theorem rank : d'.item.rank = d.item.rank := (congrArg Item.rank (h.untyped hd) :)

/-- What a payload tells without its types, it tells of both declarations. -/
theorem observe {α : Type} {f : Payload → α} (hf : ∀ p : Payload, f p.untyped = f p) :
    f d'.item.payload = f d.item.payload := by
  have hpay : d'.item.payload.untyped = d.item.payload.untyped := congrArg Item.payload (h.untyped hd)
  rw [← hf, hpay, hf]

theorem name : d'.name = d.name :=
  hd.observe h (f := Payload.name) fun p => by cases p <;> rfl

theorem asClass? : d'.asClass?.map ClassInfo.untyped = d.asClass?.map ClassInfo.untyped :=
  hd.observe h (f := fun p =>
    (Decl.asClass? { d with item := { d.item with payload := p } }).map ClassInfo.untyped)
    fun p => by cases p <;> rfl

theorem asMethod? : d'.asMethod?.map MethodInfo.untyped = d.asMethod?.map MethodInfo.untyped :=
  hd.observe h (f := fun p =>
    (Decl.asMethod? { d with item := { d.item with payload := p } }).map MethodInfo.untyped)
    fun p => by cases p <;> rfl

/-- The lists of the one declaration hold the peers of what the lists of the other one hold. -/
theorem members (slot : Slot) : List.Forall₂ (s.Peers t) (d.members slot) (d'.members slot) := by
  have hslot := hd.observe h (f := fun p => p.slot slot) fun p => by cases p <;> cases slot <;> rfl
  unfold Decl.members
  rw [hslot, hd.left.surface, hd.right.surface]
  exact h.forall₂_decls _

theorem parent? : Option.Rel (s.Peers t) d.parent? d'.parent? := by
  have hparent : d'.item.parent = d.item.parent := (congrArg Item.parent (h.untyped hd) :)
  unfold Decl.parent?
  rw [hparent, hd.left.surface, hd.right.surface]
  exact h.bind_decl? _

theorem containingClass? : Option.Rel (s.Peers t) d.containingClass? d'.containingClass? := by
  have hparent := hd.parent? h
  have hpay : d'.item.payload.untyped = d.item.payload.untyped := congrArg Item.payload (h.untyped hd)
  unfold Decl.containingClass?
  cases hp : d.item.payload <;> cases hp' : d'.item.payload <;> rw [hp, hp'] at hpay <;> try cases hpay
  case package.package => exact .none
  case ofClass.ofClass info info' =>
    have houter : info'.outer = info.outer := (congrArg ClassInfo.outer (Payload.ofClass.inj hpay :) :)
    rw [hd.left.surface, hd.right.surface]
    dsimp only
    rw [houter]
    exact h.bind_decl? _
  case parameter.parameter => exact rel_bind hparent fun _ _ hpeers => hpeers.parent? h
  all_goals exact hparent

theorem containingMethod? : Option.Rel (s.Peers t) d.containingMethod? d'.containingMethod? := by
  have hparent := hd.parent? h
  have hpay : d'.item.payload.untyped = d.item.payload.untyped := congrArg Item.payload (h.untyped hd)
  unfold Decl.containingMethod?
  cases hp : d.item.payload <;> cases hp' : d'.item.payload <;> rw [hp, hp'] at hpay <;> try cases hpay
  case parameter.parameter => exact hparent
  all_goals exact .none

omit h in
theorem walk {next : Decl → Option Decl}
    (hnext : ∀ {d d' : Decl}, s.Peers t d d' → Option.Rel (s.Peers t) (next d) (next d')) (bound : Nat) :
    List.Forall₂ (s.Peers t) (Decl.walk next bound d) (Decl.walk next bound d') := by
  induction bound generalizing d d' with
  | zero => exact .nil
  | succ bound ih =>
    unfold Decl.walk
    refine .cons hd ?_
    rcases rel_cases (hnext hd) with ⟨hn, hn'⟩ | ⟨e, e', hn, hn', he⟩
    · rw [hn, hn']
      exact .nil
    · rw [hn, hn']
      exact ih he

theorem selfAndClasses : List.Forall₂ (s.Peers t) d.selfAndClasses d'.selfAndClasses := by
  unfold Decl.selfAndClasses
  rw [hd.id]
  exact hd.walk (fun he => he.containingClass? h) _

/-- What holds of the own type parameters of any two peers holds of the type parameters in scope. -/
theorem typeScope {S : TypeParameter → TypeParameter → Prop}
    (hS : ∀ e e', s.Peers t e e' → List.Forall₂ S e.ownTypeParameters e'.ownTypeParameters) :
    List.Forall₂ S d.typeScope d'.typeScope := by
  have hmethod : List.Forall₂ S ((d.containingMethod?.map Decl.ownTypeParameters).getD [])
      ((d'.containingMethod?.map Decl.ownTypeParameters).getD []) := by
    rcases rel_cases (hd.containingMethod? h) with ⟨hm, hm'⟩ | ⟨m, m', hm, hm', hpeers⟩
    · rw [hm, hm']
      exact .nil
    · rw [hm, hm']
      exact hS m m' hpeers
  refine List.rel_append (List.rel_append (hS d d' hd) hmethod) ?_
  exact List.rel_flatMap (forall₂_tail (hd.selfAndClasses h)) fun c c' hc => hS c c' hc

end Surface.Peers

end ApiSurface
