import ApiSurface.Proofs.TypeNames

/-! # Types as they are written

A well-formed type is a qualified name whose segments may each have generic arguments, with array levels
behind it. The number of levels is read off the text without its generic arguments, while the base name
ends at the first bracket. The two scans agree on a type that has generic arguments at its end only. What
stands behind the arguments of an inner segment, as in `Map<K, V>.Entry`, belongs to the text without
arguments and is lost from the base name. -/
namespace ApiSurface.TypeRef

/-! ## Generic arguments -/

/-- Angle brackets come in pairs, one pair inside another or after it. -/
inductive Balanced : List Char → Prop where
  | nil : Balanced []
  | plain {c : Char} {rest : List Char} (hopen : c ≠ '<') (hclose : c ≠ '>') (h : Balanced rest) :
      Balanced (c :: rest)
  | nested {inner rest : List Char} (hinner : Balanced inner) (h : Balanced rest) :
      Balanced ('<' :: (inner ++ '>' :: rest))

theorem Balanced.of_plain {cs : List Char} (h : ∀ c ∈ cs, c ≠ '<' ∧ c ≠ '>') : Balanced cs := by
  induction cs with
  | nil => exact .nil
  | cons c cs ih =>
    obtain ⟨hopen, hclose⟩ := h c List.mem_cons_self
    exact .plain hopen hclose (ih fun d hd => h d (List.mem_cons_of_mem _ hd))

/-- Inside of brackets a balanced text leaves no trace, and the depth is the same after it. -/
theorem Balanced.dropGenerics {cs : List Char} (h : Balanced cs) (depth : Nat) (rest : List Char) :
    TypeRef.dropGenerics (depth + 1) (cs ++ rest) = TypeRef.dropGenerics (depth + 1) rest := by
  induction h generalizing depth rest with
  | nil => rfl
  | plain hopen hclose _ ih =>
    rw [List.cons_append, TypeRef.dropGenerics, if_neg hopen, if_neg hclose, if_neg (Nat.succ_ne_zero _)]
    exact ih depth rest
  | @nested inner after _ _ ihinner ih =>
    rw [List.cons_append, TypeRef.dropGenerics, if_pos rfl, List.append_assoc, ihinner, List.cons_append,
      TypeRef.dropGenerics, if_neg (by decide), if_pos rfl]
    exact ih depth rest

/-- A generic argument list leaves no trace. -/
theorem Balanced.dropGenerics_arguments {cs : List Char} (h : Balanced cs) (rest : List Char) :
    TypeRef.dropGenerics 0 ('<' :: (cs ++ '>' :: rest)) = TypeRef.dropGenerics 0 rest := by
  rw [TypeRef.dropGenerics, if_pos rfl, h.dropGenerics, TypeRef.dropGenerics, if_neg (by decide), if_pos rfl]

/-- Outside of all brackets, what is no bracket is kept. -/
theorem dropGenerics_append {cs : List Char} (h : ∀ c ∈ cs, c ≠ '<' ∧ c ≠ '>') (rest : List Char) :
    dropGenerics 0 (cs ++ rest) = cs ++ dropGenerics 0 rest := by
  induction cs with
  | nil => rfl
  | cons c cs ih =>
    obtain ⟨hopen, hclose⟩ := h c List.mem_cons_self
    rw [List.cons_append, dropGenerics, if_neg hopen, if_neg hclose, if_pos rfl,
      ih fun d hd => h d (List.mem_cons_of_mem _ hd), List.cons_append]

/-! ## Well-formed types -/

/-- A segment of a qualified name, with its generic arguments if it has a list of them. -/
structure Segment where
  name : List Char
  arguments : Option (List Char) := none
  isPlain : IsPlain name
  isBalanced : ∀ inner, arguments = some inner → Balanced inner

theorem balanced_of_none (arguments : List Char) (h : none = some arguments) : Balanced arguments := by
  cases h

def Segment.chars (segment : Segment) : List Char :=
  match segment.arguments with
  | none => segment.name
  | some inner => segment.name ++ '<' :: (inner ++ ['>'])

def dotted (names : List (List Char)) : List Char := ['.'].intercalate names

def bracketsOf (levels : Nat) : List Char := (List.replicate levels ['[', ']']).flatten

/-- A type as it is written. -/
structure WrittenType where
  segments : List Segment
  levels : Nat := 0
  isVarargs : Bool := false
  ne_nil : segments ≠ []

namespace WrittenType

variable (t : WrittenType)

def suffix : List Char := bracketsOf t.levels ++ if t.isVarargs then ellipsis else []

def ref : TypeRef := ⟨String.ofList (dotted (t.segments.map Segment.chars) ++ t.suffix)⟩

def names : List (List Char) := t.segments.map Segment.name

/-- The number of array levels, where a final `...` counts as one. -/
def dimensions : Nat := t.levels + if t.isVarargs then 1 else 0

/-- Whether no segment before the last one has generic arguments. -/
def EndsWithArguments : Prop := ∀ segment ∈ t.segments.dropLast, segment.arguments = none

end WrittenType

/-- The names of the segments up to the first one with generic arguments. -/
def namesToArguments : List Segment → List (List Char)
  | [] => []
  | segment :: rest =>
    match segment.arguments with
    | none => segment.name :: namesToArguments rest
    | some _ => [segment.name]

/-! ## Dotted names -/

theorem IsPlain.isName {w : List Char} (hw : IsPlain w) : IsName w :=
  ⟨hw.ne_nil, fun _ hc => hw.separates_eq_false hc, fun h => fun hdot =>
    hw.unmarked _ (List.getLast_mem h) (hdot ▸ .inr rfl)⟩

theorem dotted_cons {w : List Char} {names : List (List Char)} (h : names ≠ []) :
    dotted (w :: names) = w ++ '.' :: dotted names := by
  obtain ⟨v, rest, rfl⟩ := List.exists_cons_of_ne_nil h
  rw [dotted, List.intercalate_cons_cons, List.append_assoc]
  rfl

/-- A dotted name is a qualified name. -/
theorem isName_dotted {names : List (List Char)} (hne : names ≠ []) (h : ∀ w ∈ names, IsPlain w) :
    IsName (dotted names) := by
  induction names with
  | nil => exact (hne rfl).elim
  | cons w rest ih =>
    have hw := (h w List.mem_cons_self).isName
    by_cases hrest : rest = []
    · rw [hrest, dotted, List.intercalate_singleton]
      exact hw
    · have hname := ih hrest fun v hv => h v (List.mem_cons_of_mem _ hv)
      rw [dotted_cons hrest]
      refine ⟨List.append_ne_nil_of_left_ne_nil hw.ne_nil _, fun c hc => ?_, fun _ => ?_⟩
      · rcases List.mem_append.mp hc with hc | hc
        · exact hw.unbroken c hc
        · rcases List.mem_cons.mp hc with rfl | hc
          · decide
          · exact hname.unbroken c hc
      · rw [List.getLast_append_of_ne_nil _ (List.cons_ne_nil _ _), List.getLast_cons hname.ne_nil]
        exact hname.ends hname.ne_nil

theorem dotted_injective {names names' : List (List Char)} (hne : names ≠ []) (hne' : names' ≠ [])
    (h : ∀ w ∈ names, IsPlain w) (h' : ∀ w ∈ names', IsPlain w) (heq : dotted names = dotted names') :
    names = names' := by
  have hdot : ∀ {names : List (List Char)}, (∀ w ∈ names, IsPlain w) → ∀ w ∈ names, '.' ∉ w :=
    fun h w hw hmem => (h w hw).unmarked '.' hmem (.inr rfl)
  rw [← List.splitOn_intercalate '.' (hdot h) hne, ← List.splitOn_intercalate '.' (hdot h') hne']
  exact congrArg (List.splitOn '.') heq

/-! ## The text without generic arguments -/

theorem IsName.not_bracket {w : List Char} (hw : IsName w) : ∀ c ∈ w, c ≠ '<' ∧ c ≠ '>' := by
  intro c hc
  have hsep := hw.unbroken c hc
  refine ⟨?_, ?_⟩ <;> rintro rfl <;> cases hsep

theorem Segment.dropGenerics_chars (segment : Segment) (rest : List Char) :
    dropGenerics 0 (segment.chars ++ rest) = segment.name ++ dropGenerics 0 rest := by
  have hname := segment.isPlain.isName.not_bracket
  unfold chars
  cases harguments : segment.arguments with
  | none => exact dropGenerics_append hname rest
  | some inner =>
    have hbalanced := segment.isBalanced inner harguments
    simp only [List.append_assoc, List.cons_append, List.nil_append]
    rw [dropGenerics_append hname, hbalanced.dropGenerics_arguments]

theorem dropGenerics_segments (segments : List Segment) (rest : List Char) :
    dropGenerics 0 (dotted (segments.map Segment.chars) ++ rest) =
      dotted (segments.map Segment.name) ++ dropGenerics 0 rest := by
  induction segments with
  | nil => rfl
  | cons segment more ih =>
    by_cases hmore : more = []
    · subst hmore
      simp only [List.map_cons, List.map_nil, dotted, List.intercalate_singleton]
      exact segment.dropGenerics_chars rest
    · have hne : ∀ f : Segment → List Char, more.map f ≠ [] := fun f h => hmore (List.map_eq_nil_iff.mp h)
      rw [List.map_cons, List.map_cons, dotted_cons (hne _), dotted_cons (hne _), List.append_assoc,
        segment.dropGenerics_chars, List.cons_append, dropGenerics, if_neg (by decide), if_neg (by decide),
        if_pos rfl, ih, List.append_assoc, List.cons_append]

theorem mem_bracketsOf {levels : Nat} {c : Char} (h : c ∈ bracketsOf levels) : c = '[' ∨ c = ']' := by
  obtain ⟨pair, hpair, hc⟩ := List.mem_flatten.mp h
  rw [List.eq_of_mem_replicate hpair] at hc
  simpa using hc

namespace WrittenType

variable (t : WrittenType)

theorem dropGenerics_suffix : TypeRef.dropGenerics 0 t.suffix = t.suffix := by
  have h : ∀ c ∈ t.suffix, c ≠ '<' ∧ c ≠ '>' := by
    intro c hc
    rcases List.mem_append.mp hc with hc | hc
    · rcases mem_bracketsOf hc with rfl | rfl <;> decide
    · split at hc
      · have hdot : c = '.' := by simpa [ellipsis] using hc
        subst hdot
        decide
      · cases hc
  have hnil := dropGenerics_append h []
  rwa [List.append_nil, show TypeRef.dropGenerics 0 [] = [] from rfl, List.append_nil] at hnil

/-- Without generic arguments a type is its dotted name and what is written behind it. -/
theorem dropGenerics_ref :
    TypeRef.dropGenerics 0 t.ref.text.toList = dotted t.names ++ t.suffix := by
  rw [ref, String.toList_ofList, dropGenerics_segments, dropGenerics_suffix]
  rfl

theorem names_ne_nil : t.names ≠ [] := fun h => t.ne_nil (List.map_eq_nil_iff.mp h)

theorem isPlain_of_mem_names {w : List Char} (h : w ∈ t.names) : IsPlain w := by
  obtain ⟨segment, _, rfl⟩ := List.mem_map.mp h
  exact segment.isPlain

end WrittenType

/-! ## Array levels -/

theorem reverse_bracketsOf_succ (levels : Nat) :
    (bracketsOf (levels + 1)).reverse = ']' :: '[' :: (bracketsOf levels).reverse := by
  rw [bracketsOf, List.replicate_succ', List.flatten_append, List.reverse_append]
  rfl

theorem bracketPairs_brackets (levels : Nat) (rest : List Char) :
    bracketPairs ((bracketsOf levels).reverse ++ rest) = levels + bracketPairs rest := by
  induction levels with
  | zero => exact (Nat.zero_add _).symm
  | succ levels ih =>
    rw [reverse_bracketsOf_succ, Nat.add_right_comm, ← ih]
    rfl

/-- A name ends in a character that is no mark. -/
theorem IsName.reverse_eq_cons {w : List Char} (hw : IsName w) :
    ∃ c rest, w.reverse = c :: rest ∧ ¬IsMark c := by
  have hne : w.reverse ≠ [] := fun h => hw.ne_nil (List.reverse_eq_nil_iff.mp h)
  have hlast : w.reverse.head hne = w.getLast hw.ne_nil := List.head_reverse hne
  refine ⟨w.reverse.head hne, w.reverse.tail, (List.cons_head_tail hne).symm, ?_⟩
  rw [hlast]
  rintro (hsep | hdot)
  · rw [hw.unbroken _ (List.getLast_mem _)] at hsep
    cases hsep
  · exact hw.ends hw.ne_nil hdot

/-- Behind a name all brackets are counted. -/
theorem bracketPairs_name_brackets {w : List Char} (hw : IsName w) (levels : Nat) :
    bracketPairs (w ++ bracketsOf levels).reverse = levels := by
  obtain ⟨c, rest, hc, hmark⟩ := hw.reverse_eq_cons
  rw [List.reverse_append, bracketPairs_brackets, hc, bracketPairs_of_not_mark hmark, Nat.add_zero]

theorem arrayLevels_brackets {w : List Char} (hw : IsName w) (levels : Nat) :
    arrayLevels (w ++ bracketsOf levels).reverse = levels := by
  have hpairs := bracketPairs_name_brackets hw levels
  -- the text ends in a bracket or in the last character of the name, so neither in a blank nor in a dot
  have hstart : ∃ d more, (w ++ bracketsOf levels).reverse = d :: more ∧ Text.isBlank d = false ∧
      d ≠ '.' := by
    rw [List.reverse_append]
    cases levels with
    | zero =>
      obtain ⟨c, rest, hc, hmark⟩ := hw.reverse_eq_cons
      have hblank := not_isBlank (Bool.eq_false_iff.mpr fun h => hmark (.inl h))
      exact ⟨c, rest, hc, hblank, fun h => hmark (.inr h)⟩
    | succ levels =>
      rw [reverse_bracketsOf_succ]
      exact ⟨']', _, rfl, rfl, by decide⟩
  obtain ⟨d, more, hd, hblank, hdot⟩ := hstart
  rw [hd] at hpairs ⊢
  rw [arrayLevels, List.dropWhile_cons_of_neg (Bool.eq_false_iff.mp hblank)]
  split
  · next h => exact (hdot (List.cons.inj h).1).elim
  · exact hpairs

theorem arrayLevels_ellipsis (cs : List Char) :
    arrayLevels (cs ++ ellipsis).reverse = bracketPairs cs.reverse + 1 := by
  rw [List.reverse_append]
  rfl

namespace WrittenType

variable (t : WrittenType)

/-- The array levels are those that are written behind the name. -/
theorem arrayDimensions_ref : t.ref.arrayDimensions = t.dimensions := by
  have hname := isName_dotted t.names_ne_nil fun _ hw => t.isPlain_of_mem_names hw
  have hlevels := arrayLevels_brackets hname t.levels
  rw [arrayDimensions, dropGenerics_ref, suffix, ← List.append_assoc, dimensions]
  cases t.isVarargs with
  | false => simpa using hlevels
  | true =>
    rw [if_pos rfl, if_pos rfl, arrayLevels_ellipsis, bracketPairs_name_brackets hname]

end WrittenType

/-! ## The base name -/

/-- A name in front of brackets or of a final `...` is a base name. -/
theorem baseChars_append {w rest : List Char} (hw : IsName w)
    (hrest : dropEllipsis (rest.takeWhile fun c => !endsBase c) = []) : baseChars (w ++ rest) = w := by
  have hall : ∀ c ∈ w, (!endsBase c) = true := fun c hc => by rw [not_endsBase (hw.unbroken c hc)]; rfl
  have hstart : w.dropWhile Text.isBlank = w := by
    obtain ⟨c, more, rfl⟩ := List.exists_cons_of_ne_nil hw.ne_nil
    rw [List.dropWhile_cons, not_isBlank (hw.unbroken c List.mem_cons_self), if_neg Bool.false_ne_true]
  have hend : Text.trimEnd w = w := by
    have htrim : Text.trimEnd (w ++ []) = w ++ Text.trimEnd [] := trimEnd_name hw
    rwa [List.append_nil, show Text.trimEnd [] = [] from rfl, List.append_nil] at htrim
  rw [baseChars, List.takeWhile_append_of_pos hall, dropEllipsis_append hw, hrest, List.append_nil, Text.trim,
    hstart, hend]

theorem namesToArguments_ne_nil {segments : List Segment} (h : segments ≠ []) :
    namesToArguments segments ≠ [] := by
  obtain ⟨segment, more, rfl⟩ := List.exists_cons_of_ne_nil h
  rw [namesToArguments]
  split <;> exact List.cons_ne_nil _ _

/-- The text of the segments goes on behind the names up to the first arguments, with an angle bracket if
there are arguments. -/
theorem exists_dotted_segments (segments : List Segment) (tail : List Char) :
    ∃ rest, dotted (segments.map Segment.chars) ++ tail = dotted (namesToArguments segments) ++ rest ∧
      (rest = tail ∨ ∃ more, rest = '<' :: more) := by
  induction segments with
  | nil => exact ⟨tail, rfl, .inl rfl⟩
  | cons segment more ih =>
    obtain ⟨rest, heq, hrest⟩ := ih
    cases harguments : segment.arguments with
    | none =>
      simp only [namesToArguments, harguments, List.map_cons, Segment.chars]
      by_cases hmore : more = []
      · subst hmore
        exact ⟨tail, rfl, .inl rfl⟩
      · refine ⟨rest, ?_, hrest⟩
        rw [dotted_cons fun h => hmore (List.map_eq_nil_iff.mp h),
          dotted_cons (namesToArguments_ne_nil hmore)]
        simp only [List.append_assoc, List.cons_append, heq]
    | some inner =>
      simp only [namesToArguments, harguments, List.map_cons, Segment.chars]
      by_cases hmore : more = []
      · subst hmore
        refine ⟨'<' :: (inner ++ '>' :: tail), ?_, .inr ⟨_, rfl⟩⟩
        simp [dotted, List.intercalate_singleton]
      · refine ⟨'<' :: (inner ++ '>' :: ('.' :: (dotted (more.map Segment.chars) ++ tail))), ?_,
          .inr ⟨_, rfl⟩⟩
        rw [dotted_cons fun h => hmore (List.map_eq_nil_iff.mp h)]
        simp [dotted, List.intercalate_singleton]

theorem isPlain_of_mem_namesToArguments {segments : List Segment} {w : List Char}
    (h : w ∈ namesToArguments segments) : IsPlain w := by
  induction segments with
  | nil => cases h
  | cons segment more ih =>
    rw [namesToArguments] at h
    split at h
    · rcases List.mem_cons.mp h with rfl | h
      · exact segment.isPlain
      · exact ih h
    · rw [List.mem_singleton.mp h]
      exact segment.isPlain

/-- All names come before the arguments if only the last segment has any. -/
theorem namesToArguments_eq_iff (segments : List Segment) :
    namesToArguments segments = segments.map Segment.name ↔
      ∀ segment ∈ segments.dropLast, segment.arguments = none := by
  induction segments with
  | nil => simp [namesToArguments]
  | cons segment more ih =>
    by_cases hmore : more = []
    · subst hmore
      cases harguments : segment.arguments <;> simp [namesToArguments, harguments]
    · rw [List.dropLast_cons_of_ne_nil hmore, List.forall_mem_cons, ← ih]
      cases harguments : segment.arguments with
      | none => simp [namesToArguments, harguments]
      | some inner => simp [namesToArguments, harguments, hmore]

namespace WrittenType

variable (t : WrittenType)

theorem dropEllipsis_takeWhile_suffix :
    dropEllipsis (t.suffix.takeWhile fun c => !endsBase c) = [] := by
  unfold suffix
  cases t.levels with
  | zero => cases t.isVarargs <;> rfl
  | succ levels => rfl

/-- The base name ends at the first generic arguments. -/
theorem baseName_ref :
    t.ref.baseName = String.ofList (dotted (namesToArguments t.segments)) := by
  have hname := isName_dotted (namesToArguments_ne_nil t.ne_nil) fun _ hw => isPlain_of_mem_namesToArguments hw
  obtain ⟨rest, heq, hrest⟩ := exists_dotted_segments t.segments t.suffix
  rw [baseName, ref, String.toList_ofList, heq, baseChars_append hname]
  rcases hrest with rfl | ⟨more, rfl⟩
  · exact t.dropEllipsis_takeWhile_suffix
  · rfl

end WrittenType

/-! ## Erasure -/

theorem toList_arrayOf (base : String) (levels : Nat) :
    (arrayOf base levels).toList = base.toList ++ bracketsOf levels := by
  induction levels with
  | zero => exact (List.append_nil _).symm
  | succ levels ih =>
    rw [arrayOf, String.toList_append, ih, bracketsOf, bracketsOf, List.replicate_succ', List.flatten_append,
      List.append_assoc]
    rfl

/-- Of names, the element type and the number of levels can be read off the array. -/
theorem arrayOf_inj {w w' : List Char} (hw : IsName w) (hw' : IsName w') {levels levels' : Nat} :
    arrayOf (String.ofList w) levels = arrayOf (String.ofList w') levels' ↔ w = w' ∧ levels = levels' := by
  refine ⟨fun h => ?_, fun ⟨hname, hlevels⟩ => hname ▸ hlevels ▸ rfl⟩
  have hchars := congrArg String.toList h
  simp only [toList_arrayOf, String.toList_ofList] at hchars
  have hlevels : levels = levels' := by
    rw [← bracketPairs_name_brackets hw levels, hchars, bracketPairs_name_brackets hw']
  subst hlevels
  exact ⟨List.append_cancel_right hchars, rfl⟩

namespace WrittenType

variable (t u : WrittenType)

/-- The erasure that the text without generic arguments gives: the dotted name with its array levels. -/
def fullErasure : String := arrayOf (String.ofList (dotted t.names)) t.dimensions

theorem erased_ref :
    t.ref.erased = arrayOf (String.ofList (dotted (namesToArguments t.segments))) t.dimensions := by
  rw [erased, baseName_ref, arrayDimensions_ref]

/-- The erasure of a well-formed type has all array levels, and of the name the segments up to the first
one with generic arguments. So it is what the text without generic arguments gives iff only the last
segment has any, and it tells two types apart iff they differ in these segments or in the number of
levels. -/
theorem erased_written :
    stripGenerics t.ref.text = String.ofList (dotted t.names ++ t.suffix) ∧
      t.ref.erased = arrayOf (String.ofList (dotted (namesToArguments t.segments))) t.dimensions ∧
      (t.ref.erased = t.fullErasure ↔ t.EndsWithArguments) ∧
      (t.ref.erased = u.ref.erased ↔
        namesToArguments t.segments = namesToArguments u.segments ∧ t.dimensions = u.dimensions) := by
  have hplain : ∀ t : WrittenType, ∀ w ∈ namesToArguments t.segments, IsPlain w :=
    fun _ _ hw => isPlain_of_mem_namesToArguments hw
  have hne := fun t : WrittenType => namesToArguments_ne_nil t.ne_nil
  have hname := fun t : WrittenType => isName_dotted (hne t) (hplain t)
  have hnames := isName_dotted t.names_ne_nil fun _ hw => t.isPlain_of_mem_names hw
  refine ⟨congrArg String.ofList t.dropGenerics_ref, t.erased_ref, ?_, ?_⟩
  · rw [erased_ref, fullErasure, arrayOf_inj (hname t) hnames, and_iff_left rfl, EndsWithArguments,
      ← namesToArguments_eq_iff]
    exact ⟨dotted_injective (hne t) t.names_ne_nil (hplain t) fun _ hw => t.isPlain_of_mem_names hw,
      congrArg dotted⟩
  · rw [erased_ref, erased_ref, arrayOf_inj (hname t) (hname u)]
    exact and_congr_left fun _ =>
      ⟨dotted_injective (hne t) (hne u) (hplain t) (hplain u), congrArg dotted⟩

/-- A nested class of a generic class with arguments of its own, in an array. -/
def mapEntry : WrittenType where
  segments :=
    [{ name := "java".toList, isPlain := by decide, isBalanced := by simp },
      { name := "util".toList, isPlain := by decide, isBalanced := by simp },
      { name := "Map".toList, arguments := some "K, V".toList, isPlain := by decide
        isBalanced := fun _ h => Option.some.inj h ▸ .of_plain (by simp) },
      { name := "Entry".toList, arguments := some "K, V".toList, isPlain := by decide
        isBalanced := fun _ h => Option.some.inj h ▸ .of_plain (by simp) }]
  levels := 1
  ne_nil := List.cons_ne_nil _ _

/-- The nested class is lost from the erasure. -/
theorem erased_mapEntry :
    mapEntry.ref.text = "java.util.Map<K, V>.Entry<K, V>[]" ∧
      mapEntry.fullErasure = "java.util.Map.Entry[]" ∧ mapEntry.ref.erased = "java.util.Map[]" := by
  decide

end WrittenType

end ApiSurface.TypeRef
