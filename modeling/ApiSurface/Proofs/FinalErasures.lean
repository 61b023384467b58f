import ApiSurface.Proofs.WrittenTypes

/-! # Final erasures

In a scope the name of a type parameter is erased to the first bound of the parameter. The bound is taken
as it is: if it names another parameter of the scope, so does the erasure, and erasing that again goes one
bound further. In all other cases an erasure is final, whatever array levels and generic arguments the type
and the bounds have. -/
namespace ApiSurface.TypeRef

variable {w : List Char} {t : TypeRef} {p : TypeParameter} {scope : List TypeParameter}

/-! ## Arrays of a name -/

theorem arrayOf_arrayOf (base : String) (m n : Nat) : arrayOf (arrayOf base m) n = arrayOf base (m + n) := by
  induction n with
  | zero => rfl
  | succ n ih => rw [arrayOf, ih, ← Nat.add_assoc, arrayOf]

theorem baseName_arrayOf (hw : IsName w) (levels : Nat) :
    (⟨arrayOf (String.ofList w) levels⟩ : TypeRef).baseName = String.ofList w := by
  have hstop : dropEllipsis ((bracketsOf levels).takeWhile fun c => !endsBase c) = [] := by
    cases levels <;> rfl
  rw [baseName, toList_arrayOf, String.toList_ofList, baseChars_append hw hstop]

theorem arrayDimensions_arrayOf (hw : IsName w) (levels : Nat) :
    (⟨arrayOf (String.ofList w) levels⟩ : TypeRef).arrayDimensions = levels := by
  have hplain : ∀ c ∈ w ++ bracketsOf levels, c ≠ '<' ∧ c ≠ '>' := by
    intro c hc
    rcases List.mem_append.mp hc with hc | hc
    · exact hw.not_bracket c hc
    · rcases mem_bracketsOf hc with rfl | rfl <;> decide
  have hdrop := dropGenerics_append hplain []
  simp only [dropGenerics, List.append_nil] at hdrop
  rw [arrayDimensions, toList_arrayOf, String.toList_ofList, hdrop, arrayLevels_brackets hw]

/-- An array of a name is its own erasure. -/
theorem erased_arrayOf (hw : IsName w) (levels : Nat) :
    (⟨arrayOf (String.ofList w) levels⟩ : TypeRef).erased = arrayOf (String.ofList w) levels := by
  rw [erased, baseName_arrayOf hw, arrayDimensions_arrayOf hw]

theorem isName_objectName : IsName objectName.toList := by
  have h : objectName.toList = dotted ["java".toList, "lang".toList, "Object".toList] := by decide
  rw [h]
  exact isName_dotted (List.cons_ne_nil _ _) (by decide)

/-- The base name of a type is a name, as it is of every well-formed type. -/
def IsNamed (t : TypeRef) : Prop := IsName t.baseName.toList

theorem WrittenType.isNamed_ref (t : WrittenType) : t.ref.IsNamed := by
  rw [IsNamed, t.baseName_ref, String.toList_ofList]
  exact isName_dotted (namesToArguments_ne_nil t.ne_nil) fun _ hw => isPlain_of_mem_namesToArguments hw

/-! ## One step along the bounds -/

/-- The first bounds of type parameters are well formed, and none of the parameters has the name of the
root of the class hierarchy. -/
structure WellBounded (scope : List TypeParameter) : Prop where
  named : ∀ p ∈ scope, ∀ bound ∈ p.bounds, bound.IsNamed
  notRoot : ∀ p ∈ scope, p.name ≠ objectName

/-- The type names a parameter of the scope whose first bound names another parameter of the scope. -/
def LeavesParameter (scope : List TypeParameter) (t : TypeRef) : Prop :=
  ∃ p bound, (scope.find? fun p => p.name == t.baseName) = some p ∧ p.bounds.head? = some bound ∧
    bound.baseName ≠ p.name ∧ ∃ q ∈ scope, q.name = bound.baseName

/-- A parameter is erased to its first bound, unless it has none or bounds itself. -/
theorem parameterErasure_cases (p : TypeParameter) :
    (parameterErasure p = objectName ∧ ∀ bound, p.bounds.head? = some bound → bound.baseName = p.name) ∨
      ∃ bound, p.bounds.head? = some bound ∧ bound.baseName ≠ p.name ∧ parameterErasure p = bound.erased := by
  unfold parameterErasure
  cases p.bounds.head? with
  | none => exact .inl ⟨rfl, fun _ h => nomatch h⟩
  | some bound =>
    by_cases hself : bound.baseName = p.name
    · exact .inl ⟨if_pos hself, fun _ h => Option.some.inj h ▸ hself⟩
    · exact .inr ⟨bound, rfl, hself, if_neg hself⟩

/-- The erasure of a parameter is an array of another name. That name is a parameter iff the first bound of
the parameter names one. -/
theorem WellBounded.exists_parameterErasure (h : WellBounded scope) (hp : p ∈ scope) :
    ∃ w n, IsName w ∧ parameterErasure p = arrayOf (String.ofList w) n ∧ String.ofList w ≠ p.name ∧
      ((∃ q ∈ scope, q.name = String.ofList w) ↔
        ∃ bound, p.bounds.head? = some bound ∧ bound.baseName ≠ p.name ∧ ∃ q ∈ scope, q.name = bound.baseName) := by
  rcases parameterErasure_cases p with ⟨hroot, hself⟩ | ⟨bound, hbound, hother, herased⟩
  · refine ⟨objectName.toList, 0, isName_objectName, ?_, ?_, ?_⟩ <;> rw [String.ofList_toList]
    · exact hroot
    · exact (h.notRoot p hp).symm
    · constructor
      · rintro ⟨q, hq, hname⟩
        exact (h.notRoot q hq hname).elim
      · rintro ⟨bound, hbound, hother, _⟩
        exact (hother (hself bound hbound)).elim
  · have hnamed := h.named p hp bound (List.mem_of_head? hbound)
    refine ⟨bound.baseName.toList, bound.arrayDimensions, hnamed, ?_, ?_, ?_⟩ <;> rw [String.ofList_toList]
    · exact herased
    · exact hother
    · constructor
      · exact fun hq => ⟨bound, hbound, hother, hq⟩
      · rintro ⟨bound', hbound', _, hq⟩
        rw [hbound] at hbound'
        cases hbound'
        exact hq

/-- The erasure of a type is an array of a name, which is a parameter iff the bounds lead to one. -/
theorem WellBounded.exists_erasureIn (h : WellBounded scope) (ht : t.IsNamed) :
    ∃ w n, IsName w ∧ t.erasureIn scope = arrayOf (String.ofList w) n ∧
      ((∃ q ∈ scope, q.name = String.ofList w) ↔ t.LeavesParameter scope) := by
  unfold erasureIn LeavesParameter
  cases hfind : scope.find? fun p => p.name == t.baseName with
  | none =>
    refine ⟨t.baseName.toList, t.arrayDimensions, ht, ?_, ?_⟩ <;> rw [String.ofList_toList]
    · rfl
    · refine iff_of_false ?_ (by simp)
      rintro ⟨q, hq, hname⟩
      exact List.find?_eq_none.mp hfind q hq (beq_iff_eq.mpr hname)
  | some p =>
    obtain ⟨w, n, hw, herasure, _, hleaves⟩ := h.exists_parameterErasure (List.mem_of_find?_eq_some hfind)
    refine ⟨w, n + t.arrayDimensions, hw, ?_, hleaves.trans ?_⟩
    · dsimp only
      rw [herasure, arrayOf_arrayOf]
    · simp

/-- Erasing an array of a name again changes nothing iff no parameter has that name: a parameter is never
erased to itself. -/
theorem WellBounded.erasureIn_arrayOf_iff (h : WellBounded scope) (hw : IsName w) (n : Nat) :
    (⟨arrayOf (String.ofList w) n⟩ : TypeRef).erasureIn scope = arrayOf (String.ofList w) n ↔
      ¬∃ q ∈ scope, q.name = String.ofList w := by
  unfold erasureIn
  rw [baseName_arrayOf hw, arrayDimensions_arrayOf hw, erased_arrayOf hw]
  cases hfind : scope.find? fun p => p.name == String.ofList w with
  | none =>
    refine iff_of_true rfl ?_
    rintro ⟨q, hq, hname⟩
    exact List.find?_eq_none.mp hfind q hq (beq_iff_eq.mpr hname)
  | some p =>
    have hp := List.mem_of_find?_eq_some hfind
    have hname := List.find?_some hfind
    rw [beq_iff_eq] at hname
    obtain ⟨u, m, hu, herasure, hother, _⟩ := h.exists_parameterErasure hp
    refine iff_of_false (fun hsame => hother ?_) (fun hno => hno ⟨p, hp, hname⟩)
    dsimp only at hsame
    rw [herasure, arrayOf_arrayOf, arrayOf_inj hu hw] at hsame
    rw [hsame.1, hname]

/-- Erasing the erasure of a parameter erases its first bound, with the array levels kept. -/
theorem erasureIn_erasureIn {bound : TypeRef} (hbound : bound.IsNamed)
    (hfind : (scope.find? fun p => p.name == t.baseName) = some p) (hhead : p.bounds.head? = some bound)
    (hother : bound.baseName ≠ p.name) :
    (⟨t.erasureIn scope⟩ : TypeRef).erasureIn scope = arrayOf (bound.erasureIn scope) t.arrayDimensions := by
  obtain ⟨w, hw, hname⟩ : ∃ w, IsName w ∧ bound.baseName = String.ofList w :=
    ⟨_, hbound, String.ofList_toList.symm⟩
  have hfirst : t.erasureIn scope =
      arrayOf (String.ofList w) (bound.arrayDimensions + t.arrayDimensions) := by
    simp only [erasureIn, hfind, parameterErasure, hhead, if_neg hother]
    rw [erased, hname, arrayOf_arrayOf]
  rw [hfirst]
  unfold erasureIn
  rw [baseName_arrayOf hw, arrayDimensions_arrayOf hw, erased_arrayOf hw, hname]
  cases scope.find? fun p => p.name == String.ofList w with
  | none => rw [erased, hname, arrayOf_arrayOf]
  | some q => dsimp only; rw [arrayOf_arrayOf]

/-! ## Erasures of well-formed types -/

namespace WrittenType

/-- The erasure of a well-formed type names no parameter of the scope, and is not changed by erasing it
again, iff the type does not name a parameter whose first bound names another one. If it does name a
parameter with another bound, erasing again goes on to the erasure of that bound. -/
theorem erasureIn_final_iff (t : WrittenType) (scope : List TypeParameter)
    (hbounds : ∀ p ∈ scope, ∀ bound ∈ p.bounds, ∃ written : WrittenType, bound = written.ref)
    (hroot : ∀ p ∈ scope, p.name ≠ objectName) :
    ((∀ p ∈ scope, p.name ≠ (⟨t.ref.erasureIn scope⟩ : TypeRef).baseName) ↔ ¬t.ref.LeavesParameter scope) ∧
      ((⟨t.ref.erasureIn scope⟩ : TypeRef).erasureIn scope = t.ref.erasureIn scope ↔
        ¬t.ref.LeavesParameter scope) ∧
      ∀ p bound, (scope.find? fun p => p.name == t.ref.baseName) = some p → p.bounds.head? = some bound →
        bound.baseName ≠ p.name → (⟨t.ref.erasureIn scope⟩ : TypeRef).erasureIn scope =
          arrayOf (bound.erasureIn scope) t.ref.arrayDimensions := by
  have hscope : WellBounded scope := by
    refine ⟨fun p hp bound hbound => ?_, hroot⟩
    obtain ⟨written, rfl⟩ := hbounds p hp bound hbound
    exact written.isNamed_ref
  obtain ⟨w, n, hw, herasure, hleaves⟩ := hscope.exists_erasureIn t.isNamed_ref
  refine ⟨?_, ?_, fun p bound hfind hhead hother => ?_⟩
  · rw [herasure, baseName_arrayOf hw, ← hleaves]
    simp only [not_exists, not_and, ne_eq]
  · rw [herasure, hscope.erasureIn_arrayOf_iff hw, hleaves]
  · have hp := List.mem_of_find?_eq_some hfind
    exact erasureIn_erasureIn (hscope.named p hp bound (List.mem_of_head? hhead)) hfind hhead hother

def simple (name : List Char) (h : IsPlain name) : WrittenType where
  segments := [{ name, isPlain := h, isBalanced := balanced_of_none }]
  ne_nil := List.cons_ne_nil _ _

/-- `U[]...`, two array levels of a name. -/
def nestedVarargs : WrittenType where
  segments := [{ name := "U".toList, isPlain := by decide, isBalanced := balanced_of_none }]
  levels := 1
  isVarargs := true
  ne_nil := List.cons_ne_nil _ _

/-- `p.Ordered<T>`, a bound that mentions a parameter without naming it. -/
def ordered : WrittenType where
  segments :=
    [{ name := "p".toList, isPlain := by decide, isBalanced := balanced_of_none },
      { name := "Ordered".toList, arguments := some "T".toList, isPlain := by decide
        isBalanced := fun _ h => Option.some.inj h ▸ .of_plain (by simp) }]
  ne_nil := List.cons_ne_nil _ _

/-- The parameters `T extends U`, `U extends p.Ordered<T>` and `E extends E`. -/
def chainScope : List TypeParameter :=
  [{ name := "T", bounds := [(simple "U".toList (by decide)).ref] },
    { name := "U", bounds := [ordered.ref] },
    { name := "E", bounds := [(simple "E".toList (by decide)).ref] }]

theorem chainScope_written : ∀ p ∈ chainScope, ∀ bound ∈ p.bounds, ∃ written : WrittenType, bound = written.ref := by
  simp only [chainScope, List.forall_mem_cons, List.not_mem_nil, false_imp_iff, implies_true, and_true]
  exact ⟨⟨_, rfl⟩, ⟨_, rfl⟩, ⟨_, rfl⟩⟩

/-- An array of a parameter that is bounded by a type: the erasure is final. -/
theorem erasureIn_final_iff_nestedVarargs :
    nestedVarargs.ref.erasureIn chainScope = "p.Ordered[][]" ∧
      (∀ p ∈ chainScope, p.name ≠ (⟨nestedVarargs.ref.erasureIn chainScope⟩ : TypeRef).baseName) ∧
      (⟨nestedVarargs.ref.erasureIn chainScope⟩ : TypeRef).erasureIn chainScope =
        nestedVarargs.ref.erasureIn chainScope := by
  have hroot : ∀ p ∈ chainScope, p.name ≠ objectName := by decide
  have hstays : ¬nestedVarargs.ref.LeavesParameter chainScope := by
    rintro ⟨p, bound, hfind, hhead, _, q, hq, hname⟩
    have hU : (chainScope.find? fun p => p.name == nestedVarargs.ref.baseName) =
        some { name := "U", bounds := [ordered.ref] } := by decide +kernel
    rw [hU] at hfind
    cases hfind
    cases hhead
    revert q
    decide +kernel
  have hfinal := erasureIn_final_iff nestedVarargs chainScope chainScope_written hroot
  exact ⟨by decide +kernel, hfinal.1.mpr hstays, hfinal.2.1.mpr hstays⟩

/-- A parameter bounded by a parameter: the erasure of `T` is the parameter `U`, and erasing again gives
another text. -/
theorem erasureIn_boundedByParameter :
    (simple "T".toList (by decide)).ref.erasureIn chainScope = "U" ∧
      (∃ p ∈ chainScope, p.name = (⟨"U"⟩ : TypeRef).baseName) ∧
      (⟨"U"⟩ : TypeRef).erasureIn chainScope = "p.Ordered" := by
  decide +kernel

end WrittenType

end ApiSurface.TypeRef
