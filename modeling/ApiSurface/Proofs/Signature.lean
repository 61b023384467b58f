import Mathlib.Data.List.Zip
import ApiSurface.Signature

/-! # The loose test of signatures

The test pairs the versions of a method, so it must not matter which of the two is asked. An
unresolved variable may stand on either side, and both sides are tried. -/
namespace ApiSurface.Decl

theorem parameterAgrees_comm (a b : Decl) (s t : TypeRef) :
    parameterAgrees a b s t = parameterAgrees b a t s := by
  have hs : (s == t) = (t == s) := BEq.comm
  have he : (s.erasureIn a.typeScope == t.erasureIn b.typeScope) =
      (t.erasureIn b.typeScope == s.erasureIn a.typeScope) := BEq.comm
  simp only [parameterAgrees, hs, he, Bool.or_assoc]
  rw [Bool.or_comm (a.surface.isPartial && s.mayStandFor t)]

theorem parameterAgrees_self (a : Decl) (t : TypeRef) : parameterAgrees a a t t = true := by
  simp [parameterAgrees]

/-- Where the same type parameters are in scope and no surface is partial, types agree iff they have one
erasure: what is written alike is erased alike. -/
theorem parameterAgrees_of_scope {a b : Decl} (hscope : b.typeScope = a.typeScope)
    (ha : a.surface.isPartial = false) (hb : b.surface.isPartial = false) (s t : TypeRef) :
    parameterAgrees a b s t = (s.erasureIn a.typeScope == t.erasureIn a.typeScope) := by
  unfold parameterAgrees
  rw [hscope, ha, hb, Bool.false_and, Bool.false_and, Bool.or_false, Bool.or_false]
  cases hst : s == t with
  | false => rfl
  | true =>
    rw [eq_of_beq hst, beq_self_eq_true]
    rfl

/-- The label of a partial surface only lets more types agree. -/
theorem parameterAgrees_mono {a b a' b' : Decl} (ha : a'.typeScope = a.typeScope)
    (hb : b'.typeScope = b.typeScope) (hpa : a.surface.isPartial → a'.surface.isPartial)
    (hpb : b.surface.isPartial → b'.surface.isPartial) {s t : TypeRef}
    (h : parameterAgrees a b s t = true) : parameterAgrees a' b' s t = true := by
  simp only [parameterAgrees, ha, hb, Bool.or_eq_true, Bool.and_eq_true] at h ⊢
  exact h.imp (Or.imp_right (And.imp_left hpa)) (And.imp_left hpb)

/-- Neither side of the loose test is special. -/
theorem signatureMatches_comm (a b : Decl) : a.signatureMatches b = b.signatureMatches a := by
  unfold signatureMatches
  cases ha : a.asMethod? with
  | none => cases b.asMethod? <;> rfl
  | some m =>
    cases hb : b.asMethod? with
    | none => rfl
    | some n =>
      have hn : (m.name == n.name) = (n.name == m.name) := BEq.comm
      have hl : (a.parameterTypes.length == b.parameterTypes.length) =
          (b.parameterTypes.length == a.parameterTypes.length) := BEq.comm
      simp only [hn, hl]
      rw [← List.zip_swap a.parameterTypes b.parameterTypes, List.all_map]
      congr 2
      funext ⟨s, t⟩
      exact parameterAgrees_comm a b s t

/-- A method or constructor matches itself. -/
theorem signatureMatches_self {a : Decl} (h : a.asMethod?.isSome) : a.signatureMatches a = true := by
  obtain ⟨m, hm⟩ := Option.isSome_iff_exists.mp h
  simp only [signatureMatches, hm, beq_self_eq_true, Bool.true_and, List.all_eq_true]
  rintro ⟨s, t⟩ hst
  obtain ⟨i, hi, he⟩ := List.mem_iff_getElem.mp hst
  rw [List.getElem_zip] at he
  cases he
  exact parameterAgrees_self a _

theorem asMethod?_name {a : Decl} {m : MethodInfo} (h : a.asMethod? = some m) : m.name = a.name := by
  unfold asMethod? at h
  unfold name Payload.name
  split at h <;> simp_all

/-- Methods match iff they have one name and their parameter types agree one by one. -/
theorem signatureMatches_iff {a b : Decl} : a.signatureMatches b = true ↔
    a.asMethod?.isSome ∧ b.asMethod?.isSome ∧ a.name = b.name ∧
      List.Forall₂ (fun s t => parameterAgrees a b s t = true) a.parameterTypes b.parameterTypes := by
  unfold signatureMatches
  cases ha : a.asMethod? with
  | none => simp
  | some m =>
    cases hb : b.asMethod? with
    | none => simp
    | some n =>
      simp only [Option.isSome_some, true_and, Bool.and_eq_true, beq_iff_eq, List.all_eq_true,
        asMethod?_name ha, asMethod?_name hb, List.forall₂_iff_zip, Prod.forall, and_assoc]

/-- Where the same type parameters are in scope and no surface is partial, methods match iff they have one
name and their parameter types one list of erasures. -/
theorem signatureMatches_iff_of_scope {a b : Decl} (ha : a.asMethod?.isSome) (hb : b.asMethod?.isSome)
    (hscope : b.typeScope = a.typeScope) (hpa : a.surface.isPartial = false)
    (hpb : b.surface.isPartial = false) : a.signatureMatches b = true ↔ a.name = b.name ∧
      a.parameterTypes.map (·.erasureIn a.typeScope) = b.parameterTypes.map (·.erasureIn a.typeScope) := by
  rw [signatureMatches_iff, ← List.forall₂_eq_eq_eq, List.forall₂_map_left_iff,
    List.forall₂_map_right_iff]
  simp only [ha, hb, true_and, parameterAgrees_of_scope hscope hpa hpb, beq_iff_eq]

/-- Methods that match have one name, and both are methods or constructors. -/
theorem signatureMatches_sound {a b : Decl} (h : a.signatureMatches b = true) :
    a.name = b.name ∧ a.asMethod?.isSome ∧ b.asMethod?.isSome := by
  obtain ⟨ha, hb, hname, _⟩ := signatureMatches_iff.mp h
  exact ⟨hname, ha, hb⟩

end ApiSurface.Decl
