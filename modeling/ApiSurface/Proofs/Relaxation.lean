import Mathlib.Data.List.DropRight
import ApiSurface.Proofs.Tolerance
import ApiSurface.Proofs.WrittenTypes

/-! # What an unresolved variable may stand for

Where the types of two matching methods differ, as they are written and after erasure, one of them belongs
to a partial surface and stands for the other one. A bare type variable may do so, that is one upper-case
letter with nothing but array levels behind it. But only the first two characters are looked at, so that
`R.Id` and `T<p.Node>` pass for variables as well. -/
namespace ApiSurface

open Surface

namespace TypeRef

/-! ## Variables -/

/-- A type variable as it is written: one upper-case letter of ASCII, array levels and at most one final
`...`. -/
structure BareVariable where
  letter : Char
  levels : Nat := 0
  isVarargs : Bool := false
  isUpper : letter.isUpper = true

def BareVariable.ref (v : BareVariable) : TypeRef :=
  ⟨String.ofList (v.letter :: (bracketsOf v.levels ++ if v.isVarargs then ellipsis else []))⟩

/-- The type is one upper-case letter of ASCII with nothing but array levels behind it. -/
def IsBareVariable (t : TypeRef) : Prop := ∃ v : BareVariable, t = v.ref

/-- The text begins with an upper-case letter of ASCII that no letter or digit follows. -/
def OpensAsVariable (t : TypeRef) : Prop :=
  ∃ c rest, t.text.toList = c :: rest ∧ c.isUpper = true ∧ ∀ d ∈ rest.head?, Text.isAlphanumeric d = false

theorem isUnresolvedVariable_iff (t : TypeRef) : t.isUnresolvedVariable = true ↔ t.OpensAsVariable := by
  unfold isUnresolvedVariable OpensAsVariable
  rcases t.text.toList with _ | ⟨c, _ | ⟨d, rest⟩⟩ <;> simp

theorem not_isMark_of_isUpper {c : Char} (h : c.isUpper = true) : ¬IsMark c := by
  have hmarks : (['<', '>', '[', ']', ',', '&', '|', '?', '(', ')', '@', ':'].all fun m => !m.isUpper) = true := rfl
  have hblank : Text.isBlank c = false := by
    have hbounds : 'A'.val ≤ c.val ∧ c.val ≤ 'Z'.val := of_decide_eq_true h
    have hlow : 65 ≤ c.toNat := UInt32.le_iff_toNat_le.mp hbounds.1
    have hhigh : c.toNat ≤ 90 := UInt32.le_iff_toNat_le.mp hbounds.2
    simp only [Text.isBlank, Bool.or_eq_false_iff, Bool.and_eq_false_iff, decide_eq_false_iff_not,
      beq_eq_false_iff_ne]
    omega
  rintro (hsep | rfl)
  · rw [separates, hblank, Bool.false_or, List.contains_iff_mem] at hsep
    have hnot := List.all_eq_true.mp hmarks c hsep
    rw [h] at hnot
    cases hnot
  · cases h

namespace BareVariable

variable (v : BareVariable)

/-- A bare variable is a well-formed type of one segment. -/
def written : WrittenType where
  segments :=
    [{ name := [v.letter]
       isPlain := ⟨List.cons_ne_nil _ _, fun _ hc =>
        List.mem_singleton.mp hc ▸ not_isMark_of_isUpper v.isUpper⟩
       isBalanced := balanced_of_none }]
  levels := v.levels
  isVarargs := v.isVarargs
  ne_nil := List.cons_ne_nil _ _

theorem arrayDimensions_ref : v.ref.arrayDimensions = v.levels + if v.isVarargs then 1 else 0 :=
  v.written.arrayDimensions_ref

theorem opensAsVariable_ref : v.ref.OpensAsVariable := by
  refine ⟨v.letter, _, String.toList_ofList, v.isUpper, fun d hd => ?_⟩
  rcases v with ⟨letter, levels, isVarargs, isUpper⟩
  cases levels with
  | succ levels => cases hd; decide +kernel
  | zero =>
    cases isVarargs with
    | true => cases hd; decide +kernel
    | false => cases hd

end BareVariable

namespace WrittenType

variable (w : WrittenType)

/-- The first segment of the name is an upper-case letter of ASCII, or goes on behind it with what is no
letter and no digit. -/
def OpensAsVariable : Prop :=
  ∃ c rest, (w.segments.head w.ne_nil).name = c :: rest ∧ c.isUpper = true ∧
    ∀ d ∈ rest.head?, Text.isAlphanumeric d = false

/-- What is written behind the name of the first segment begins with no letter and no digit. -/
theorem exists_behind_first : ∃ more, w.ref.text.toList = (w.segments.head w.ne_nil).name ++ more ∧
    ∀ d ∈ more.head?, Text.isAlphanumeric d = false := by
  have hsuffix : ∀ d ∈ w.suffix.head?, Text.isAlphanumeric d = false := by
    intro d hd
    unfold suffix at hd
    cases hlevels : w.levels with
    | succ levels => rw [hlevels] at hd; cases hd; decide +kernel
    | zero =>
      rw [hlevels] at hd
      cases hvarargs : w.isVarargs <;> rw [hvarargs] at hd <;> cases hd
      decide +kernel
  obtain ⟨first, others, hsegments⟩ := List.exists_cons_of_ne_nil w.ne_nil
  have hrest : ∃ rest, dotted (w.segments.map Segment.chars) ++ w.suffix = first.chars ++ rest ∧
      ∀ d ∈ rest.head?, Text.isAlphanumeric d = false := by
    rw [hsegments]
    cases others with
    | nil => exact ⟨w.suffix, by rw [List.map_singleton, dotted, List.intercalate_singleton], hsuffix⟩
    | cons next others =>
      have hne : (next :: others).map Segment.chars ≠ [] := List.cons_ne_nil _ _
      refine ⟨'.' :: (dotted ((next :: others).map Segment.chars) ++ w.suffix), ?_, ?_⟩
      · rw [List.map_cons, dotted_cons hne, List.append_assoc, List.cons_append]
      · rintro d ⟨⟩
        decide +kernel
  obtain ⟨rest, htext, hhead⟩ := hrest
  have hfirst : w.segments.head w.ne_nil = first := by simp only [hsegments, List.head_cons]
  rw [ref, String.toList_ofList, htext, hfirst]
  cases harguments : first.arguments with
  | none => exact ⟨rest, by rw [Segment.chars, harguments], hhead⟩
  | some inner =>
    refine ⟨'<' :: (inner ++ ['>'] ++ rest), by simp [Segment.chars, harguments], ?_⟩
    rintro d ⟨⟩
    decide +kernel

/-- Whether a well-formed type passes for a variable can be told from the first segment of its name. -/
theorem opensAsVariable_ref : w.ref.OpensAsVariable ↔ w.OpensAsVariable := by
  obtain ⟨more, htext, hmore⟩ := w.exists_behind_first
  obtain ⟨c, rest, hname⟩ := List.exists_cons_of_ne_nil (w.segments.head w.ne_nil).isPlain.ne_nil
  have hnext : (∀ d ∈ (rest ++ more).head?, Text.isAlphanumeric d = false) ↔
      ∀ d ∈ rest.head?, Text.isAlphanumeric d = false := by
    cases rest with
    | nil => exact iff_of_true hmore fun _ hd => nomatch hd
    | cons d rest => exact Iff.rfl
  unfold TypeRef.OpensAsVariable OpensAsVariable
  rw [htext, hname]
  simp only [List.cons_append, List.cons.injEq, exists_and_left, exists_eq_left', hnext, and_assoc]

end WrittenType

/-! ## Base names of primitive types -/

theorem trimEnd_trimEnd (cs : List Char) : Text.trimEnd (Text.trimEnd cs) = Text.trimEnd cs :=
  List.rdropWhile_idempotent Text.isBlank cs

theorem trim_trim (cs : List Char) : Text.trim (Text.trim cs) = Text.trim cs := by
  have hstart : (Text.trim cs).dropWhile Text.isBlank = Text.trim cs := by
    have hends : Text.trim cs <+: cs.dropWhile Text.isBlank := trimEnd_isPrefix _
    refine List.dropWhile_eq_self_iff.mpr fun hlen => ?_
    rw [hends.getElem hlen]
    exact List.dropWhile_get_zero_not _ _ (Nat.lt_of_lt_of_le hlen hends.length_le)
  have h : Text.trim (Text.trim cs) = Text.trimEnd ((Text.trim cs).dropWhile Text.isBlank) := rfl
  rw [h, hstart]
  exact trimEnd_trimEnd _

/-- A base name has no brackets that open anything. -/
theorem not_endsBase_of_mem_baseChars {cs : List Char} {c : Char} (h : c ∈ baseChars cs) :
    endsBase c = false := by
  have hmem : c ∈ cs.takeWhile fun c => !endsBase c :=
    (dropEllipsis_isPrefix _).subset ((List.dropWhile_suffix _).subset ((trimEnd_isPrefix _).subset h))
  have hc := (List.mem_takeWhile_imp hmem :)
  simpa using hc

theorem dropGenerics_ellipsis {cs : List Char} (h : '<' ∉ cs) :
    dropGenerics 0 (cs ++ ellipsis) = dropGenerics 0 cs ++ ellipsis := by
  induction cs with
  | nil => rfl
  | cons c rest ih =>
    have hc : c ≠ '<' := fun hc => h (hc ▸ List.mem_cons_self)
    have hrest := ih fun hmem => h (List.mem_cons_of_mem _ hmem)
    rw [List.cons_append, dropGenerics, dropGenerics, if_neg hc, if_neg hc, if_pos rfl, if_pos rfl, hrest]
    split <;> rfl

/-- A base name names a primitive type iff it is the name of one: it has no array levels that could be cut
off. -/
theorem isPrimitive_baseName (t : TypeRef) :
    (trimmed t.baseName).isPrimitive = primitives.contains t.baseName := by
  obtain ⟨w, hw⟩ : ∃ w, baseChars t.text.toList = w := ⟨_, rfl⟩
  have hname : t.baseName = String.ofList w := congrArg String.ofList hw
  have hbase : trimmed t.baseName = ⟨String.ofList w⟩ := by
    have htrim : Text.trim w = w := hw ▸ trim_trim _
    rw [hname, trimmed, Text.trimmed, String.toList_ofList, htrim]
  have hunbroken : ∀ c ∈ w, (!endsBase c) = true := fun c hc => by
    rw [not_endsBase_of_mem_baseChars (hw ▸ hc)]
    rfl
  have hnames : ∀ p ∈ primitives, ellipsis.isSuffixOf p.toList = false ∧ (⟨p⟩ : TypeRef).isPrimitive = true := by
    decide +kernel
  rw [hbase, hname, Bool.eq_iff_iff, List.contains_iff_mem]
  refine ⟨fun h => ?_, fun h => (hnames _ h).2⟩
  obtain ⟨hlevels, hprimitive⟩ := Bool.and_eq_true_iff.mp h
  rw [arrayDimensions, String.toList_ofList, beq_iff_eq] at hlevels
  have hplain : ellipsis.isSuffixOf w = false := by
    refine Bool.eq_false_iff.mpr fun hsuffix => ?_
    obtain ⟨v, rfl⟩ := List.isSuffixOf_iff_suffix.mp hsuffix
    have hopen : '<' ∉ v := fun hmem =>
      Bool.false_ne_true (hunbroken '<' (List.mem_append_left _ hmem))
    rw [dropGenerics_ellipsis hopen, arrayLevels_ellipsis] at hlevels
    cases hlevels
  have hself : (⟨String.ofList w⟩ : TypeRef).baseName = String.ofList w := by
    have htake : w.takeWhile (fun c => !endsBase c) = w := List.takeWhile_eq_self_iff.mpr hunbroken
    have htrim : Text.trim w = w := hw ▸ trim_trim _
    rw [baseName, String.toList_ofList, baseChars, htake, dropEllipsis, hplain, if_neg Bool.false_ne_true, htrim]
  rwa [hself, List.contains_iff_mem] at hprimitive

/-! ## Standing for a type -/

/-- A variable written like `t` may have the other type, as far as primitive types and array levels go. -/
def Admits (t other : TypeRef) : Prop :=
  if t.arrayDimensions = 0 then other.isPrimitive = false
  else other.arrayDimensions = t.arrayDimensions ∧ other.baseName ∉ primitives

theorem mayStandFor_iff (t other : TypeRef) :
    t.mayStandFor other = true ↔ t.OpensAsVariable ∧ t.Admits other := by
  unfold mayStandFor Admits
  rw [Bool.and_eq_true, isUnresolvedVariable_iff]
  refine and_congr_right fun _ => ?_
  split
  · rw [Bool.not_eq_true']
  · rw [Bool.and_eq_true, beq_iff_eq, isPrimitive_baseName, Bool.not_eq_true', List.contains_eq_mem,
      decide_eq_false_iff_not]

end TypeRef

namespace Decl

variable {a b : Decl} {s t : TypeRef}

/-- The surface of `a` is partial, and its type `s` passes for a variable that may have the type `t`. -/
def Stands (a : Decl) (s t : TypeRef) : Prop :=
  a.surface.isPartial = true ∧ s.OpensAsVariable ∧ s.Admits t

/-- The surface of `a` is partial, and `s` is a bare variable. The type `t` is not primitive if nothing is
written behind the variable, and otherwise has as many array levels and no primitive base. -/
def Relaxes (a : Decl) (s t : TypeRef) : Prop :=
  a.surface.isPartial = true ∧ ∃ v : TypeRef.BareVariable, s = v.ref ∧
    if v.levels = 0 ∧ v.isVarargs = false then t.isPrimitive = false
    else t.arrayDimensions = v.levels + (if v.isVarargs then 1 else 0) ∧ t.baseName ∉ TypeRef.primitives

theorem relaxes_iff : a.Relaxes s t ↔ a.Stands s t ∧ s.IsBareVariable := by
  have hadmits : ∀ v : TypeRef.BareVariable, v.ref.Admits t ↔
      if v.levels = 0 ∧ v.isVarargs = false then t.isPrimitive = false
      else t.arrayDimensions = v.levels + (if v.isVarargs then 1 else 0) ∧
        t.baseName ∉ TypeRef.primitives := by
    intro v
    have hzero : v.ref.arrayDimensions = 0 ↔ v.levels = 0 ∧ v.isVarargs = false := by
      rw [v.arrayDimensions_ref]
      cases v.isVarargs <;> simp
    simp only [TypeRef.Admits, hzero]
    simp only [v.arrayDimensions_ref]
  constructor
  · rintro ⟨hpartial, v, rfl, hv⟩
    exact ⟨⟨hpartial, v.opensAsVariable_ref, (hadmits v).mpr hv⟩, v, rfl⟩
  · rintro ⟨⟨hpartial, -, hadmit⟩, v, rfl⟩
    exact ⟨hpartial, v, rfl, (hadmits v).mp hadmit⟩

/-- Types agree iff they are equal as written or after erasure, or one of them stands for the other. -/
theorem parameterAgrees_iff : parameterAgrees a b s t = true ↔
    s = t ∨ s.erasureIn a.typeScope = t.erasureIn b.typeScope ∨ a.Stands s t ∨ b.Stands t s := by
  simp only [parameterAgrees, Bool.or_eq_true, Bool.and_eq_true, beq_iff_eq, TypeRef.mayStandFor_iff, Stands,
    or_assoc]

/-- Where two matching methods have types that differ as written and after erasure, a type of a partial
surface stands for the other one. It is a bare variable, and the other type is one that the variable may
have, iff a type that stands there is bare. Of well-formed types one begins like a variable. -/
theorem signatureMatches_relaxation (h : a.signatureMatches b = true) {k : Nat}
    (hs : a.parameterTypes[k]? = some s) (ht : b.parameterTypes[k]? = some t) (htext : s ≠ t)
    (herased : s.erasureIn a.typeScope ≠ t.erasureIn b.typeScope) :
    (a.Stands s t ∨ b.Stands t s) ∧
      (a.Relaxes s t ∨ b.Relaxes t s ↔
        a.Stands s t ∧ s.IsBareVariable ∨ b.Stands t s ∧ t.IsBareVariable) ∧
      ∀ w w' : TypeRef.WrittenType, s = w.ref → t = w'.ref → w.OpensAsVariable ∨ w'.OpensAsVariable := by
  obtain ⟨_, _, _, htypes⟩ := signatureMatches_iff.mp h
  obtain ⟨hk, rfl⟩ := List.getElem?_eq_some_iff.mp hs
  obtain ⟨hk', rfl⟩ := List.getElem?_eq_some_iff.mp ht
  have hagree := parameterAgrees_iff.mp (htypes.get hk hk')
  have hstands : a.Stands a.parameterTypes[k] b.parameterTypes[k] ∨
      b.Stands b.parameterTypes[k] a.parameterTypes[k] := (hagree.resolve_left htext).resolve_left herased
  refine ⟨hstands, by rw [relaxes_iff, relaxes_iff], fun w w' hw hw' => ?_⟩
  rw [hw, hw'] at hstands
  exact hstands.imp (fun h => w.opensAsVariable_ref.mp h.2.1) fun h => w'.opensAsVariable_ref.mp h.2.1

end Decl

/-- The methods of a partial surface and of another one, which have a parameter of these types. -/
theorem exists_taking (type type' : String)
    (h : (((Recipe.taking true [type]).build 1 "").findClass? "p.C").any (fun c => c.methods.any fun a =>
      (((Recipe.taking false [type']).build 2 "").findClass? "p.C").any fun c => c.methods.any fun b =>
        a.surface.isPartial && !b.surface.isPartial && a.parameterTypes == [⟨type⟩] &&
          b.parameterTypes == [⟨type'⟩] && a.signatureMatches b &&
          (⟨type⟩ : TypeRef).erasureIn a.typeScope != (⟨type'⟩ : TypeRef).erasureIn b.typeScope) = true) :
    ∃ a b : Decl, ((Recipe.taking true [type]).build 1 "").Declares a ∧
      ((Recipe.taking false [type']).build 2 "").Declares b ∧ a.surface.isPartial = true ∧
      b.surface.isPartial = false ∧ a.parameterTypes = [⟨type⟩] ∧ b.parameterTypes = [⟨type'⟩] ∧
      a.signatureMatches b = true ∧
      (⟨type⟩ : TypeRef).erasureIn a.typeScope ≠ (⟨type'⟩ : TypeRef).erasureIn b.typeScope := by
  have hmem : ∀ {s : Surface} {c m : Decl}, s.WellFormed → s.findClass? "p.C" = some c → m ∈ c.methods →
      s.Declares m := by
    intro s c m hs hc hm
    rw [Decl.methods_eq] at hm
    exact ((mem_members hs ((findClass?_eq_some hs).mp hc).1).mp hm).1
  simp only [Option.any_eq_true, List.any_eq_true, Bool.and_eq_true, Bool.not_eq_true', beq_iff_eq,
    bne_iff_ne] at h
  obtain ⟨c, hc, a, ha, c', hc', b, hb, ⟨⟨⟨⟨hpa, hpb⟩, hta⟩, htb⟩, hmatch⟩, herased⟩ := h
  exact ⟨a, b, hmem (Recipe.build_wellFormed _ 1 "") hc ha, hmem (Recipe.build_wellFormed _ 2 "") hc' hb, hpa,
    hpb, hta, htb, hmatch, herased⟩

namespace Decl

/-- A bare variable with two array levels stands for an array of as many levels. -/
theorem signatureMatches_relaxation_arrays : ∃ a b : Decl, a.signatureMatches b = true ∧
    a.parameterTypes = [⟨"E[]..."⟩] ∧ b.parameterTypes = [⟨"p.Node[][]"⟩] ∧
    a.Relaxes ⟨"E[]..."⟩ ⟨"p.Node[][]"⟩ := by
  obtain ⟨a, b, _, _, hpa, hpb, hta, htb, h, herased⟩ :=
    exists_taking "E[]..." "p.Node[][]" (by decide +kernel)
  have hno : ∀ s t, ¬b.Stands s t := fun s t hb => Bool.false_ne_true (hpb.symm.trans hb.1)
  obtain ⟨hstands, hrelaxes, -⟩ := signatureMatches_relaxation h (k := 0) (by rw [hta]; rfl)
    (by rw [htb]; rfl) (by decide) herased
  have hbare : (⟨"E[]..."⟩ : TypeRef).IsBareVariable :=
    ⟨{ letter := 'E', levels := 1, isVarargs := true, isUpper := by decide }, by decide⟩
  have hone := hrelaxes.mpr (.inl ⟨hstands.resolve_right (hno _ _), hbare⟩)
  exact ⟨a, b, h, hta, htb, hone.resolve_right fun hb => hno _ _ (relaxes_iff.mp hb).1⟩

/-- A nested class of a class with a name of one letter passes for a variable, and so the method that takes
it matches one that takes a string. -/
theorem signatureMatches_relaxation_nestedClass : ¬∀ s t : Surface, s.Built → t.Built → ∀ a b : Decl,
    s.Declares a → t.Declares b → a.signatureMatches b = true → ∀ (k : Nat) (u v : TypeRef),
      a.parameterTypes[k]? = some u → b.parameterTypes[k]? = some v → u ≠ v →
        u.erasureIn a.typeScope ≠ v.erasureIn b.typeScope → a.Relaxes u v ∨ b.Relaxes v u := by
  intro hclaim
  obtain ⟨a, b, ha, hb, _, hpb, hta, htb, h, herased⟩ :=
    exists_taking "R.Id" "java.lang.String" (by decide +kernel)
  rcases hclaim _ _ ⟨_, _, _, rfl⟩ ⟨_, _, _, rfl⟩ a b ha hb h 0 _ _ (by rw [hta]; rfl) (by rw [htb]; rfl)
    (by decide) herased with hrelaxes | hrelaxes
  · obtain ⟨_, v, hv, _⟩ := hrelaxes
    have htext := congrArg (·.text.toList) hv
    obtain ⟨letter, levels, isVarargs, _⟩ := v
    simp only [TypeRef.BareVariable.ref, String.toList_ofList] at htext
    cases levels with
    | zero => cases isVarargs <;> simp [TypeRef.bracketsOf, TypeRef.ellipsis] at htext
    | succ levels => simp [TypeRef.bracketsOf, List.replicate_succ] at htext
  · exact Bool.false_ne_true (hpb.symm.trans hrelaxes.1)

end Decl

end ApiSurface
