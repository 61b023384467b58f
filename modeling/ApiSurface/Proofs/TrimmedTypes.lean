import ApiSurface.Proofs.Relaxation

/-! # Types with blanks around them

A type that is read from a document keeps the blanks around its text, while one that is built loses them.
Most of what a text says about its type does not depend on them. There are two exceptions. Behind a final
`...` blanks hide it from the base name, though the array levels still count it, and in front of a type
variable they hide the variable. -/
namespace ApiSurface

namespace TypeRef

def AllBlank (cs : List Char) : Prop := ∀ c ∈ cs, Text.isBlank c = true

variable {cs front back : List Char}

/-! ## Blanks -/

theorem AllBlank.reverse (h : AllBlank cs) : AllBlank cs.reverse :=
  fun c hc => h c (List.mem_reverse.mp hc)

theorem ne_of_isBlank {c d : Char} (h : Text.isBlank c = true) (hd : Text.isBlank d = false) : c ≠ d := by
  rintro rfl
  exact Bool.false_ne_true (hd.symm.trans h)

theorem not_endsBase_of_isBlank {c : Char} (h : Text.isBlank c = true) : endsBase c = false := by
  rw [endsBase, Bool.or_eq_false_iff, beq_eq_false_iff_ne, beq_eq_false_iff_ne]
  exact ⟨ne_of_isBlank h rfl, ne_of_isBlank h rfl⟩

theorem not_isUpper_of_isBlank {c : Char} (h : Text.isBlank c = true) : c.isUpper = false :=
  Bool.eq_false_iff.mpr fun hupper => not_isMark_of_isUpper hupper (.inl (Bool.or_eq_true_iff.mpr (.inl h)))

def blankPoints : List Nat :=
  List.range' 0x09 5 ++ [0x20, 0x85, 0xA0, 0x1680] ++ List.range' 0x2000 11 ++
    [0x2028, 0x2029, 0x202F, 0x205F, 0x3000]

theorem toNat_mem_blankPoints {c : Char} (h : Text.isBlank c = true) : c.toNat ∈ blankPoints := by
  simp only [Text.isBlank, Bool.or_eq_true, Bool.and_eq_true, decide_eq_true_eq, beq_iff_eq] at h
  simp only [blankPoints, List.mem_append, List.mem_range'_1, List.mem_cons, List.not_mem_nil, or_false]
  omega

theorem blankPoints_not_isAlphanum : ∀ n ∈ blankPoints, (Char.ofNat n).isAlphanum = false := by
  decide +kernel

/-- No letter or digit beyond ASCII is among them. -/
theorem blankPoints_apart : (Text.alphanumericRanges.toList.all fun range =>
    blankPoints.all fun n => n.blt range.1 || range.2.blt n) = true := by
  decide +kernel

/-- No blank is a letter or a digit. -/
theorem not_isAlphanumeric_of_isBlank {c : Char} (h : Text.isBlank c = true) :
    Text.isAlphanumeric c = false := by
  have hmem := toNat_mem_blankPoints h
  have hascii : c.isAlphanum = false :=
    (congrArg Char.isAlphanum (Char.ofNat_toNat c).symm).trans (blankPoints_not_isAlphanum c.toNat hmem)
  have hranges : (Text.alphanumericRanges.any fun range => range.1 ≤ c.toNat && c.toNat ≤ range.2) = false := by
    rw [← Array.any_toList, List.any_eq_false]
    intro range hrange
    have hapart := List.all_eq_true.mp (List.all_eq_true.mp blankPoints_apart range hrange) c.toNat hmem
    rw [Bool.or_eq_true, Nat.blt_eq, Nat.blt_eq] at hapart
    rw [Bool.and_eq_true, decide_eq_true_eq, decide_eq_true_eq]
    omega
  rw [Text.isAlphanumeric, hascii, hranges, Bool.and_false]
  rfl

theorem trimEnd_allBlank (h : AllBlank cs) : Text.trimEnd cs = [] := by
  rw [Text.trimEnd, List.dropWhile_eq_nil_iff.mpr h.reverse]
  rfl

theorem trim_front (h : AllBlank front) (cs : List Char) : Text.trim (front ++ cs) = Text.trim cs := by
  rw [Text.trim, List.dropWhile_append_of_pos h]
  rfl

theorem trim_back (h : AllBlank back) (cs : List Char) : Text.trim (cs ++ back) = Text.trim cs := by
  rw [Text.trim, Text.trim, List.dropWhile_append]
  split
  · next hcs => rw [List.dropWhile_eq_nil_iff.mpr h, List.isEmpty_iff.mp hcs]
  · rw [trimEnd_append, trimEnd_allBlank h]
    rfl

/-- A text is what trimming leaves of it, between blanks. -/
theorem exists_margins (cs : List Char) :
    ∃ front back, cs = front ++ (Text.trim cs ++ back) ∧ AllBlank front ∧ AllBlank back := by
  have hfront := List.takeWhile_append_dropWhile (p := Text.isBlank) (l := cs)
  obtain ⟨inner, hinner⟩ : ∃ inner, cs.dropWhile Text.isBlank = inner := ⟨_, rfl⟩
  have hback : inner = Text.trimEnd inner ++ (inner.reverse.takeWhile Text.isBlank).reverse := by
    rw [Text.trimEnd, ← List.reverse_append, List.takeWhile_append_dropWhile, List.reverse_reverse]
  refine ⟨cs.takeWhile Text.isBlank, (inner.reverse.takeWhile Text.isBlank).reverse, ?_,
    fun c hc => List.mem_takeWhile_imp hc, fun c hc => List.mem_takeWhile_imp (List.mem_reverse.mp hc)⟩
  rw [Text.trim, hinner, ← hback, ← hinner, hfront]

/-! ## Array levels -/

theorem dropGenerics_front (h : AllBlank front) (cs : List Char) :
    dropGenerics 0 (front ++ cs) = front ++ dropGenerics 0 cs :=
  dropGenerics_append (fun c hc => ⟨ne_of_isBlank (h c hc) rfl, ne_of_isBlank (h c hc) rfl⟩) cs

/-- Blanks behind a text are kept or fall into brackets that are still open. -/
theorem exists_dropGenerics_back (h : AllBlank back) (cs : List Char) (depth : Nat) :
    ∃ kept, dropGenerics depth (cs ++ back) = dropGenerics depth cs ++ kept ∧ AllBlank kept := by
  induction cs generalizing depth with
  | nil =>
    refine ⟨dropGenerics depth back, rfl, ?_⟩
    induction back with
    | nil => exact h
    | cons c back ih =>
      have hblank := h c List.mem_cons_self
      have hback : AllBlank (dropGenerics depth back) := ih fun d hd => h d (List.mem_cons_of_mem _ hd)
      rw [dropGenerics, if_neg (ne_of_isBlank hblank rfl), if_neg (ne_of_isBlank hblank rfl)]
      split
      · next hzero =>
        rw [hzero] at hback
        exact List.forall_mem_cons.mpr ⟨hblank, hback⟩
      · exact hback
  | cons c cs ih =>
    rw [List.cons_append, dropGenerics, dropGenerics]
    split
    · exact ih _
    · split
      · exact ih _
      · split
        · obtain ⟨kept, heq, hkept⟩ := ih 0
          exact ⟨kept, by rw [heq, List.cons_append], hkept⟩
        · exact ih depth

theorem bracketPairs_blanks (h : AllBlank cs) : bracketPairs cs = 0 := by
  induction cs with
  | nil => rfl
  | cons c cs ih =>
    have hsquare : c ≠ ']' := ne_of_isBlank (h c List.mem_cons_self) rfl
    rw [bracketPairs_of_mark fun hpair => hsquare hpair.1, if_pos (h c List.mem_cons_self)]
    exact ih fun d hd => h d (List.mem_cons_of_mem _ hd)

theorem bracketPairs_append_blanks (h : AllBlank back) (cs : List Char) :
    bracketPairs (cs ++ back) = bracketPairs cs := by
  fun_induction bracketPairs cs with
  | case1 rest ih => exact congrArg (· + 1) ih
  | case2 c rest hpair hblank ih =>
    have hsquare : c ≠ ']' := ne_of_isBlank hblank rfl
    rw [List.cons_append, bracketPairs_of_mark fun hpair => hsquare hpair.1, if_pos hblank]
    exact ih
  | case3 c rest hpair hblank =>
    rw [List.cons_append, bracketPairs_of_mark ?_, if_neg hblank]
    rintro ⟨rfl, more, hmore⟩
    cases rest with
    | nil =>
      have hopen : '[' ∈ back := by
        rw [List.nil_append] at hmore
        exact hmore ▸ List.mem_cons_self
      exact ne_of_isBlank (h '[' hopen) rfl rfl
    | cons d rest =>
      cases hmore
      exact hpair rest rfl rfl
  | case4 => exact bracketPairs_blanks h

theorem ellipsis_isPrefix_append_blanks (h : AllBlank back) :
    ellipsis <+: cs ++ back ↔ ellipsis <+: cs := by
  refine ⟨fun ⟨rest, hrest⟩ => ?_, fun hcs => hcs.trans (List.prefix_append cs back)⟩
  rcases List.append_eq_append_iff.mp hrest with ⟨more, hmore, -⟩ | ⟨more, hmore, hback⟩
  · exact ⟨more, hmore.symm⟩
  · cases more with
    | nil => exact ⟨[], by rw [hmore, List.append_nil, List.append_nil]⟩
    | cons c more =>
      -- a dot would stand among the blanks
      have hmem : c ∈ ellipsis := hmore ▸ List.mem_append_right cs List.mem_cons_self
      have hdot : c = '.' := List.eq_of_mem_replicate (show c ∈ List.replicate 3 '.' from hmem)
      have hblank := h c (hback ▸ List.mem_append_left rest List.mem_cons_self)
      exact (ne_of_isBlank hblank rfl hdot).elim

theorem arrayLevels_of_not_ellipsis (h : ¬ellipsis <+: cs.dropWhile Text.isBlank) :
    arrayLevels cs = bracketPairs (cs.dropWhile Text.isBlank) := by
  rw [arrayLevels]
  split
  · next rest hrest => exact (h ⟨rest, hrest.symm⟩).elim
  · rfl

/-- The array levels do not depend on the blanks that end a text given backwards. -/
theorem arrayLevels_append_blanks (h : AllBlank back) (cs : List Char) :
    arrayLevels (cs ++ back) = arrayLevels cs := by
  have hdrop : (cs ++ back).dropWhile Text.isBlank = [] ∧ cs.dropWhile Text.isBlank = [] ∨
      (cs ++ back).dropWhile Text.isBlank = cs.dropWhile Text.isBlank ++ back := by
    rw [List.dropWhile_append]
    split
    · next hcs => exact .inl ⟨List.dropWhile_eq_nil_iff.mpr h, List.isEmpty_iff.mp hcs⟩
    · exact .inr rfl
  rcases hdrop with ⟨hall, hcs⟩ | hdrop
  · rw [arrayLevels, arrayLevels, hall, hcs]
  · by_cases hdots : ellipsis <+: cs.dropWhile Text.isBlank
    · obtain ⟨rest, hrest⟩ := hdots
      rw [arrayLevels, arrayLevels, hdrop, ← hrest]
      exact congrArg (· + 1) (bracketPairs_append_blanks h rest)
    · have hmore : ¬ellipsis <+: (cs ++ back).dropWhile Text.isBlank := by
        rwa [hdrop, ellipsis_isPrefix_append_blanks h]
      rw [arrayLevels_of_not_ellipsis hdots, arrayLevels_of_not_ellipsis hmore, hdrop,
        bracketPairs_append_blanks h]

theorem arrayLevels_blanks_append (h : AllBlank front) (cs : List Char) :
    arrayLevels (front ++ cs) = arrayLevels cs := by
  rw [arrayLevels, arrayLevels, List.dropWhile_append_of_pos h]

theorem toList_trimmed (text : String) : (trimmed text).text.toList = Text.trim text.toList :=
  String.toList_ofList

/-- The number of array levels does not depend on blanks around the text. -/
theorem arrayDimensions_trimmed (text : String) :
    (trimmed text).arrayDimensions = (⟨text⟩ : TypeRef).arrayDimensions := by
  obtain ⟨front, back, htext, hfront, hback⟩ := exists_margins text.toList
  obtain ⟨kept, hkept, hblank⟩ := exists_dropGenerics_back hback (Text.trim text.toList) 0
  rw [arrayDimensions, arrayDimensions, toList_trimmed]
  conv_rhs => rw [htext, dropGenerics_front hfront, hkept]
  rw [List.reverse_append, List.reverse_append, List.append_assoc,
    arrayLevels_blanks_append hblank.reverse, arrayLevels_append_blanks hfront.reverse]

/-! ## The final `...` -/

/-- The text ends in `...` and blanks behind it. -/
def HidesEllipsis (text : String) : Prop :=
  ∃ start blanks, text.toList = start ++ (ellipsis ++ blanks) ∧ blanks ≠ [] ∧ AllBlank blanks

theorem isVarargs_iff (t : TypeRef) :
    t.isVarargs = true ↔ ∃ start, t.text.toList = start ++ ellipsis := by
  rw [isVarargs, List.isSuffixOf_iff_suffix]
  exact exists_congr fun _ => eq_comm

/-- Trimming leaves a final `...` where it is. -/
theorem trim_ellipsis (start : List Char) :
    Text.trim (start ++ ellipsis) = start.dropWhile Text.isBlank ++ ellipsis := by
  have hdrop : (start ++ ellipsis).dropWhile Text.isBlank = start.dropWhile Text.isBlank ++ ellipsis := by
    rw [List.dropWhile_append]
    split
    · next hstart => rw [List.isEmpty_iff.mp hstart]; rfl
    · rfl
  rw [Text.trim, hdrop, trimEnd_append]
  rfl

theorem getLast?_ne_dot (h : AllBlank back) (hne : back ≠ []) : (cs ++ back).getLast? ≠ some '.' := by
  intro hlast
  rw [List.getLast?_append_of_ne_nil cs hne] at hlast
  exact ne_of_isBlank (h '.' (List.mem_of_getLast? hlast)) rfl rfl

theorem not_ellipsis_isSuffix (h : AllBlank back) (hne : back ≠ []) : ¬ellipsis <:+ cs ++ back := by
  rintro ⟨start, hstart⟩
  have hlast : (cs ++ back).getLast? ≠ some '.' := getLast?_ne_dot h hne
  have hdots : ellipsis ≠ [] := List.cons_ne_nil _ _
  rw [← hstart, List.getLast?_append_of_ne_nil start hdots] at hlast
  exact hlast rfl

/-- A text hides a final `...` iff only trimming makes a type with any number of arguments of it. -/
theorem hidesEllipsis_iff (text : String) :
    HidesEllipsis text ↔ (trimmed text).isVarargs = true ∧ (⟨text⟩ : TypeRef).isVarargs = false := by
  rw [isVarargs_iff, Bool.eq_false_iff, ne_eq, isVarargs, List.isSuffixOf_iff_suffix, toList_trimmed]
  constructor
  · rintro ⟨start, blanks, htext, hne, hblanks⟩
    refine ⟨⟨start.dropWhile Text.isBlank, ?_⟩, ?_⟩
    · rw [htext, ← List.append_assoc, trim_back hblanks, trim_ellipsis]
    · rw [htext, ← List.append_assoc]
      exact not_ellipsis_isSuffix hblanks hne
  · rintro ⟨⟨start, hstart⟩, hplain⟩
    obtain ⟨front, back, htext, -, hback⟩ := exists_margins text.toList
    rw [hstart] at htext
    refine ⟨front ++ start, back, ?_, ?_, hback⟩
    · rw [htext, List.append_assoc, List.append_assoc]
    · rintro rfl
      refine hplain ⟨front ++ start, ?_⟩
      rw [htext, List.append_nil, List.append_assoc]

theorem isVarargs_trimmed_of_isVarargs {text : String} (h : (⟨text⟩ : TypeRef).isVarargs = true) :
    (trimmed text).isVarargs = true := by
  obtain ⟨start, hstart⟩ := (isVarargs_iff _).mp h
  refine (isVarargs_iff _).mpr ⟨start.dropWhile Text.isBlank, ?_⟩
  rw [toList_trimmed, hstart, trim_ellipsis]

/-! ## The base name -/

/-- No bracket starts generic arguments or array levels. -/
def Unbroken (cs : List Char) : Prop := ∀ c ∈ cs, endsBase c = false

theorem takeWhile_unbroken (h : Unbroken cs) : (cs.takeWhile fun c => !endsBase c) = cs :=
  List.takeWhile_eq_self_iff.mpr fun c hc => by rw [h c hc]; rfl

theorem AllBlank.unbroken (h : AllBlank cs) : Unbroken cs := fun c hc => not_endsBase_of_isBlank (h c hc)

theorem dropEllipsis_front (h : AllBlank front) (cs : List Char) :
    dropEllipsis (front ++ cs) = front ++ dropEllipsis cs := by
  induction front with
  | nil => rfl
  | cons c front ih =>
    have hdot : c ≠ '.' := ne_of_isBlank (h c List.mem_cons_self) rfl
    have hne : c :: (front ++ cs) ≠ ellipsis := fun he => hdot (List.cons.inj he).1
    rw [List.cons_append, dropEllipsis_cons hne, ih fun d hd => h d (List.mem_cons_of_mem _ hd),
      List.cons_append]

theorem baseChars_front (h : AllBlank front) (cs : List Char) : baseChars (front ++ cs) = baseChars cs := by
  have hall : ∀ c ∈ front, (!endsBase c) = true := fun c hc => by rw [h.unbroken c hc]; rfl
  rw [baseChars, List.takeWhile_append_of_pos hall, dropEllipsis_front h, trim_front h]
  rfl

/-- Behind a bracket blanks do not matter. -/
theorem baseChars_back (hcs : ¬Unbroken cs) (back : List Char) : baseChars (cs ++ back) = baseChars cs := by
  have hshort : (cs.takeWhile fun c => !endsBase c).length ≠ cs.length := by
    intro hlength
    refine hcs fun c hc => ?_
    rw [← (List.takeWhile_prefix _).eq_of_length hlength] at hc
    simpa using List.mem_takeWhile_imp hc
  rw [baseChars, List.takeWhile_append, if_neg hshort]
  rfl

/-- Blanks at the end of a text without brackets keep a final `...` in the base name. -/
theorem baseChars_of_blanks (hcs : Unbroken cs) (hback : AllBlank back) (hne : back ≠ []) :
    baseChars (cs ++ back) = Text.trim cs := by
  have hall : Unbroken (cs ++ back) := fun c hc =>
    (List.mem_append.mp hc).elim (hcs c) (hback.unbroken c)
  have hplain : ellipsis.isSuffixOf (cs ++ back) = false :=
    Bool.eq_false_iff.mpr fun h => not_ellipsis_isSuffix hback hne (List.isSuffixOf_iff_suffix.mp h)
  rw [baseChars, takeWhile_unbroken hall, dropEllipsis, hplain, if_neg Bool.false_ne_true, trim_back hback]

theorem dropEllipsis_append_ellipsis (cs : List Char) : dropEllipsis (cs ++ ellipsis) = cs := by
  rw [dropEllipsis, if_pos (List.isSuffixOf_iff_suffix.mpr (List.suffix_append cs ellipsis)),
    List.length_append, Nat.add_sub_cancel, List.take_left]

theorem trim_length_le (cs : List Char) : (Text.trim cs).length ≤ cs.length :=
  (trimEnd_isPrefix _).length_le.trans (List.dropWhile_suffix _).length_le

/-- A trimmed text without brackets is its own base name, unless it ends in `...`. -/
theorem baseChars_eq_self_iff (hunbroken : Unbroken cs) (htrim : Text.trim cs = cs) :
    baseChars cs = cs ↔ ¬∃ start, cs = start ++ ellipsis := by
  have hbase : baseChars cs = Text.trim (dropEllipsis cs) := by rw [baseChars, takeWhile_unbroken hunbroken]
  rw [hbase]
  constructor
  · rintro hsame ⟨start, rfl⟩
    -- the base name is shorter than the text
    have hlength := congrArg List.length hsame
    have hle := trim_length_le start
    have hthree : ellipsis.length = 3 := rfl
    rw [dropEllipsis_append_ellipsis, List.length_append] at hlength
    omega
  · intro hnot
    have hsuffix : ellipsis.isSuffixOf cs = false := by
      refine Bool.eq_false_iff.mpr fun h => hnot ?_
      obtain ⟨start, hstart⟩ := List.isSuffixOf_iff_suffix.mp h
      exact ⟨start, hstart.symm⟩
    rw [dropEllipsis, hsuffix, if_neg Bool.false_ne_true, htrim]

/-- Blanks around a text change its base name iff they hide a final `...` and no bracket comes before it. -/
theorem baseName_trimmed_iff (text : String) : (trimmed text).baseName = (⟨text⟩ : TypeRef).baseName ↔
    ¬(HidesEllipsis text ∧ Unbroken text.toList) := by
  obtain ⟨front, back, htext, hfront, hback⟩ := exists_margins text.toList
  obtain ⟨inner, hinner⟩ : ∃ inner, Text.trim text.toList = inner := ⟨_, rfl⟩
  have htrim : Text.trim inner = inner := hinner ▸ trim_trim _
  have hvarargs : (trimmed text).isVarargs = true ↔ ∃ start, inner = start ++ ellipsis := by
    rw [isVarargs_iff, toList_trimmed, hinner]
  rw [baseName, baseName, String.ofList_inj, toList_trimmed, hinner]
  rw [hinner] at htext
  conv_lhs => rw [htext, baseChars_front hfront]
  by_cases hunbroken : Unbroken inner
  · have hall : Unbroken text.toList := by
      rw [htext]
      intro c hc
      rcases List.mem_append.mp hc with hc | hc
      · exact hfront.unbroken c hc
      · exact (List.mem_append.mp hc).elim (hunbroken c) (hback.unbroken c)
    rw [and_iff_left hall]
    by_cases hnone : back = []
    · have hshown : ¬HidesEllipsis text := by
        rw [hidesEllipsis_iff, hvarargs, Bool.eq_false_iff, ne_eq, isVarargs_iff, htext, hnone]
        rintro ⟨⟨start, rfl⟩, hplain⟩
        exact hplain ⟨front ++ start, by rw [List.append_nil, List.append_assoc]⟩
      rw [hnone, List.append_nil]
      exact iff_of_true rfl hshown
    · have hplain : (⟨text⟩ : TypeRef).isVarargs = false := by
        rw [Bool.eq_false_iff, ne_eq, isVarargs, List.isSuffixOf_iff_suffix, htext, ← List.append_assoc]
        exact not_ellipsis_isSuffix hback hnone
      rw [baseChars_of_blanks hunbroken hback hnone, htrim, baseChars_eq_self_iff hunbroken htrim,
        hidesEllipsis_iff, and_iff_left hplain, hvarargs]
  · have hbroken : ¬Unbroken text.toList := by
      intro hall
      refine hunbroken fun c hc => hall c ?_
      rw [htext]
      exact List.mem_append_right _ (List.mem_append_left _ hc)
    rw [baseChars_back hunbroken]
    exact iff_of_true rfl fun h => hbroken h.2

theorem arrayOf_left_inj {base base' : String} {levels : Nat} :
    arrayOf base levels = arrayOf base' levels ↔ base = base' := by
  refine ⟨fun h => ?_, fun h => h ▸ rfl⟩
  have hchars := congrArg String.toList h
  rw [toList_arrayOf, toList_arrayOf] at hchars
  exact String.toList_inj.mp (List.append_cancel_right hchars)

theorem erased_trimmed_iff (text : String) : (trimmed text).erased = (⟨text⟩ : TypeRef).erased ↔
    (trimmed text).baseName = (⟨text⟩ : TypeRef).baseName := by
  rw [erased, erased, arrayDimensions_trimmed, arrayOf_left_inj]

/-- A type with a hidden `...` has array levels, so it is not primitive either way. -/
theorem isPrimitive_trimmed (text : String) :
    (trimmed text).isPrimitive = (⟨text⟩ : TypeRef).isPrimitive := by
  unfold isPrimitive
  rw [arrayDimensions_trimmed]
  by_cases hbase : (trimmed text).baseName = (⟨text⟩ : TypeRef).baseName
  · rw [hbase]
  · obtain ⟨⟨start, blanks, htext, -, hblanks⟩, hunbroken⟩ :=
      not_not.mp (mt (baseName_trimmed_iff text).mpr hbase)
    have hopen : '<' ∉ start := by
      intro hmem
      have hends := hunbroken '<' (htext ▸ List.mem_append_left _ hmem)
      cases hends
    have hlevels : (⟨text⟩ : TypeRef).arrayDimensions ≠ 0 := by
      obtain ⟨kept, hkept, hblank⟩ := exists_dropGenerics_back hblanks (start ++ ellipsis) 0
      rw [arrayDimensions, htext, ← List.append_assoc, hkept, dropGenerics_ellipsis hopen,
        List.reverse_append, arrayLevels_blanks_append hblank.reverse, arrayLevels_ellipsis]
      exact Nat.succ_ne_zero _
    rw [beq_false_of_ne hlevels, Bool.false_and, Bool.false_and]

/-! ## Type variables -/

/-- Blanks stand in front of what passes for a type variable. -/
def HidesVariable (text : String) : Prop :=
  (∃ c ∈ text.toList.head?, Text.isBlank c = true) ∧ (trimmed text).isUnresolvedVariable = true

theorem head_trimEnd_not_isAlphanumeric_iff (cs : List Char) :
    (∀ d ∈ (Text.trimEnd cs).head?, Text.isAlphanumeric d = false) ↔
      ∀ d ∈ cs.head?, Text.isAlphanumeric d = false := by
  cases cs with
  | nil => exact Iff.rfl
  | cons d cs =>
    cases htrim : Text.trimEnd (d :: cs) with
    | nil =>
      have hall := List.dropWhile_eq_nil_iff.mp (List.reverse_eq_nil_iff.mp htrim)
      have hblank : Text.isBlank d = true := hall d (List.mem_reverse.mpr List.mem_cons_self)
      refine iff_of_true (fun _ he => by cases he) ?_
      rintro e ⟨⟩
      exact not_isAlphanumeric_of_isBlank hblank
    | cons e more =>
      have hsame : e = d := (List.cons_prefix_cons.mp (htrim ▸ trimEnd_isPrefix (d :: cs))).1
      rw [hsame]
      exact Iff.rfl

/-- Blanks behind a type variable do not hide it. -/
theorem isUnresolvedVariable_trimmed_iff (text : String) :
    (trimmed text).isUnresolvedVariable = (⟨text⟩ : TypeRef).isUnresolvedVariable ↔
      ¬HidesVariable text := by
  cases htext : text.toList with
  | nil =>
    have hsame : trimmed text = ⟨text⟩ := by
      have hempty : text = "" := String.toList_inj.mp htext
      rw [hempty]
      rfl
    rw [hsame]
    refine iff_of_true rfl ?_
    rintro ⟨⟨c, hc, -⟩, -⟩
    rw [htext] at hc
    cases hc
  | cons c rest =>
    by_cases hblank : Text.isBlank c = true
    · have hnot : (⟨text⟩ : TypeRef).isUnresolvedVariable = false := by
        refine Bool.eq_false_iff.mpr fun h => ?_
        obtain ⟨d, more, hd, hupper, -⟩ := (isUnresolvedVariable_iff _).mp h
        cases htext.symm.trans hd
        exact Bool.false_ne_true ((not_isUpper_of_isBlank hblank).symm.trans hupper)
      rw [hnot, HidesVariable, htext, and_iff_right ⟨c, rfl, hblank⟩, Bool.not_eq_true]
    · have htrim : (trimmed text).text.toList = c :: Text.trimEnd rest := by
        rw [toList_trimmed, htext, Text.trim, List.dropWhile_cons, if_neg hblank, ← List.singleton_append,
          trimEnd_append]
        split
        · next hrest => rw [List.isEmpty_iff.mp hrest, Text.trimEnd]; simp [hblank]
        · rfl
      have hnext : (∀ d ∈ (Text.trimEnd rest).head?, Text.isAlphanumeric d = false) ↔
          ∀ d ∈ rest.head?, Text.isAlphanumeric d = false := head_trimEnd_not_isAlphanumeric_iff rest
      have hshown : ¬HidesVariable text := by
        rintro ⟨⟨d, hd, hdblank⟩, -⟩
        rw [htext] at hd
        cases hd
        exact hblank hdblank
      refine iff_of_true (Bool.eq_iff_iff.mpr ?_) hshown
      rw [isUnresolvedVariable_iff, isUnresolvedVariable_iff, OpensAsVariable, OpensAsVariable, htrim, htext]
      simp only [List.cons.injEq, exists_and_left, exists_eq_left', hnext, and_assoc]

/-! ## The two ways to make a type -/

/-- What a type keeps if the blanks around its text are dropped. The fields compare the type that is built
from the text with the one that is read from a document. -/
structure KeepsMeaning (text : String) : Prop where
  /-- The array levels are always the same. -/
  arrayDimensions : (trimmed text).arrayDimensions = (⟨text⟩ : TypeRef).arrayDimensions
  /-- A primitive type is always recognized. -/
  isPrimitive : (trimmed text).isPrimitive = (⟨text⟩ : TypeRef).isPrimitive
  /-- A final `...` is found, unless blanks stand behind it. -/
  isVarargs : (trimmed text).isVarargs = (⟨text⟩ : TypeRef).isVarargs ↔ ¬HidesEllipsis text
  /-- The base name is the same, unless it takes in a final `...` that is hidden. -/
  baseName : (trimmed text).baseName = (⟨text⟩ : TypeRef).baseName ↔
    ¬(HidesEllipsis text ∧ Unbroken text.toList)
  /-- So is the erasure. -/
  erased : (trimmed text).erased = (⟨text⟩ : TypeRef).erased ↔
    ¬(HidesEllipsis text ∧ Unbroken text.toList)
  /-- So is the erasure where type parameters are visible. -/
  erasureIn : (∀ scope, (trimmed text).erasureIn scope = (⟨text⟩ : TypeRef).erasureIn scope) ↔
    ¬(HidesEllipsis text ∧ Unbroken text.toList)
  /-- A type variable is recognized, unless blanks stand in front of it. -/
  isUnresolvedVariable : (trimmed text).isUnresolvedVariable = (⟨text⟩ : TypeRef).isUnresolvedVariable ↔
    ¬HidesVariable text

theorem erasureIn_trimmed {text : String} (h : (trimmed text).baseName = (⟨text⟩ : TypeRef).baseName)
    (scope : List TypeParameter) :
    (trimmed text).erasureIn scope = (⟨text⟩ : TypeRef).erasureIn scope := by
  rw [TypeRef.erasureIn, TypeRef.erasureIn, h, arrayDimensions_trimmed, (erased_trimmed_iff text).mpr h]

theorem trimmed_keepsMeaning (text : String) : KeepsMeaning text where
  arrayDimensions := arrayDimensions_trimmed text
  isPrimitive := isPrimitive_trimmed text
  isVarargs := by
    rw [hidesEllipsis_iff]
    have himp : (⟨text⟩ : TypeRef).isVarargs = true → (trimmed text).isVarargs = true :=
      isVarargs_trimmed_of_isVarargs
    cases hbuilt : (trimmed text).isVarargs <;> cases hread : (⟨text⟩ : TypeRef).isVarargs <;> simp_all
  baseName := baseName_trimmed_iff text
  erased := (erased_trimmed_iff text).trans (baseName_trimmed_iff text)
  erasureIn := by
    rw [← baseName_trimmed_iff]
    exact ⟨fun h => (erased_trimmed_iff text).mp (h []), erasureIn_trimmed⟩
  isUnresolvedVariable := isUnresolvedVariable_trimmed_iff text

/-! ## Pairing -/

def rebuilt (t : TypeRef) : TypeRef := trimmed t.text

/-- Blanks around the text hide neither a final `...` from the base name nor a type variable. -/
structure HidesNothing (t : TypeRef) : Prop where
  ellipsis : ¬(HidesEllipsis t.text ∧ Unbroken t.text.toList)
  typeVariable : ¬HidesVariable t.text

variable {t u : TypeRef}

theorem baseName_rebuilt (h : t.HidesNothing) : t.rebuilt.baseName = t.baseName :=
  (baseName_trimmed_iff t.text).mpr h.ellipsis

theorem erased_rebuilt (h : t.HidesNothing) : t.rebuilt.erased = t.erased :=
  (erased_trimmed_iff t.text).mpr (baseName_rebuilt h)

theorem mayStandFor_rebuilt (ht : t.HidesNothing) (hu : u.HidesNothing) :
    t.rebuilt.mayStandFor u.rebuilt = t.mayStandFor u := by
  have hvariable : t.rebuilt.isUnresolvedVariable = t.isUnresolvedVariable :=
    (isUnresolvedVariable_trimmed_iff t.text).mpr ht.typeVariable
  have hlevels : ∀ t : TypeRef, t.rebuilt.arrayDimensions = t.arrayDimensions := fun t =>
    arrayDimensions_trimmed t.text
  have hprimitive : u.rebuilt.isPrimitive = u.isPrimitive := isPrimitive_trimmed u.text
  rw [mayStandFor, mayStandFor, hvariable, hlevels, hlevels, hprimitive, baseName_rebuilt hu]

end TypeRef

def TypeParameter.rebuilt (p : TypeParameter) : TypeParameter :=
  { p with bounds := p.bounds.map TypeRef.rebuilt }

namespace TypeRef

theorem parameterErasure_rebuilt {p : TypeParameter} (h : ∀ b ∈ p.bounds, b.HidesNothing) :
    parameterErasure p.rebuilt = parameterErasure p := by
  unfold parameterErasure TypeParameter.rebuilt
  cases hbounds : p.bounds with
  | nil => rfl
  | cons bound more =>
    have hbound := h bound (hbounds ▸ List.mem_cons_self)
    simp only [List.map_cons, List.head?_cons, baseName_rebuilt hbound, erased_rebuilt hbound]

/-- Erasure does not depend on the blanks around the type and around the bounds that are visible. -/
theorem erasureIn_rebuilt {t : TypeRef} {scope : List TypeParameter} (ht : t.HidesNothing)
    (hscope : ∀ p ∈ scope, ∀ b ∈ p.bounds, b.HidesNothing) :
    t.rebuilt.erasureIn (scope.map TypeParameter.rebuilt) = t.erasureIn scope := by
  have hfind : (scope.map TypeParameter.rebuilt).find? (fun p => p.name == t.baseName) =
      (scope.find? fun p => p.name == t.baseName).map TypeParameter.rebuilt := List.find?_map ..
  have hlevels : t.rebuilt.arrayDimensions = t.arrayDimensions := arrayDimensions_trimmed t.text
  rw [erasureIn, erasureIn, baseName_rebuilt ht, hfind, hlevels, erased_rebuilt ht]
  cases hp : scope.find? fun p => p.name == t.baseName with
  | none => rfl
  | some p =>
    have hbounds := hscope p (List.mem_of_find?_eq_some hp)
    rw [Option.map_some]
    simp only [parameterErasure_rebuilt hbounds]

end TypeRef

namespace Decl

/-- The second method is the first one with the types built anew from their texts, in which blanks hide
nothing. -/
structure Rebuilt (a a' : Decl) : Prop where
  isMethod : a'.asMethod?.isSome = a.asMethod?.isSome
  name : a'.name = a.name
  isPartial : a'.surface.isPartial = a.surface.isPartial
  typeScope : a'.typeScope = a.typeScope.map TypeParameter.rebuilt
  parameterTypes : a'.parameterTypes = a.parameterTypes.map TypeRef.rebuilt
  boundsPlain : ∀ p ∈ a.typeScope, ∀ b ∈ p.bounds, b.HidesNothing
  typesPlain : ∀ t ∈ a.parameterTypes, t.HidesNothing

variable {a a' b b' : Decl}

theorem parameterAgrees_rebuilt (ha : a.Rebuilt a') (hb : b.Rebuilt b') {s t : TypeRef}
    (hs : s ∈ a.parameterTypes) (ht : t ∈ b.parameterTypes) :
    parameterAgrees a' b' s.rebuilt t.rebuilt = (s.rebuilt == t.rebuilt || parameterAgrees a b s t) := by
  have hs := ha.typesPlain s hs
  have ht := hb.typesPlain t ht
  have htext : (s.rebuilt == t.rebuilt) = (s.rebuilt == t.rebuilt || s == t) := by
    cases h : s == t with
    | false => rw [Bool.or_false]
    | true => rw [eq_of_beq h, beq_self_eq_true, Bool.true_or]
  rw [parameterAgrees, parameterAgrees, ha.isPartial, hb.isPartial, ha.typeScope, hb.typeScope,
    TypeRef.erasureIn_rebuilt hs ha.boundsPlain, TypeRef.erasureIn_rebuilt ht hb.boundsPlain,
    TypeRef.mayStandFor_rebuilt hs ht, TypeRef.mayStandFor_rebuilt ht hs]
  conv_lhs => rw [htext]
  simp only [Bool.or_assoc]

/-- Methods with rebuilt types match iff the parameter types of the methods agree, but for blanks around
their texts. -/
theorem signatureMatches_rebuilt_iff (ha : a.Rebuilt a') (hb : b.Rebuilt b') :
    a'.signatureMatches b' = true ↔ a.asMethod?.isSome ∧ b.asMethod?.isSome ∧ a.name = b.name ∧
      List.Forall₂ (fun s t => s.rebuilt = t.rebuilt ∨ parameterAgrees a b s t = true)
        a.parameterTypes b.parameterTypes := by
  rw [signatureMatches_iff, ha.isMethod, hb.isMethod, ha.name, hb.name, ha.parameterTypes, hb.parameterTypes,
    List.forall₂_map_left_iff, List.forall₂_map_right_iff]
  refine and_congr_right fun _ => and_congr_right fun _ => and_congr_right fun _ => ?_
  rw [List.forall₂_iff_zip, List.forall₂_iff_zip]
  refine and_congr_right fun _ => forall₃_congr fun s t hst => ?_
  obtain ⟨hs, ht⟩ := List.of_mem_zip hst
  rw [parameterAgrees_rebuilt ha hb hs ht, Bool.or_eq_true, beq_iff_eq]

/-- Methods that match do so after their types are built anew. -/
theorem Rebuilt.signatureMatches (ha : a.Rebuilt a') (hb : b.Rebuilt b') (h : a.signatureMatches b = true) :
    a'.signatureMatches b' = true := by
  obtain ⟨hma, hmb, hname, htypes⟩ := signatureMatches_iff.mp h
  exact (signatureMatches_rebuilt_iff ha hb).mpr ⟨hma, hmb, hname, htypes.imp fun _ _ => .inr⟩

/-- If different parameter types stay different, no other methods come to match. -/
theorem Rebuilt.signatureMatches_eq (ha : a.Rebuilt a') (hb : b.Rebuilt b')
    (htexts : ∀ s ∈ a.parameterTypes, ∀ t ∈ b.parameterTypes, s.rebuilt = t.rebuilt → s = t) :
    a'.signatureMatches b' = a.signatureMatches b := by
  refine Bool.eq_iff_iff.mpr ⟨fun h => ?_, ha.signatureMatches hb⟩
  obtain ⟨hma, hmb, hname, htypes⟩ := (signatureMatches_rebuilt_iff ha hb).mp h
  refine signatureMatches_iff.mpr ⟨hma, hmb, hname, ?_⟩
  rw [List.forall₂_iff_zip] at htypes ⊢
  refine ⟨htypes.1, fun {s t} hst => ?_⟩
  obtain ⟨hs, ht⟩ := List.of_mem_zip hst
  rcases htypes.2 hst with hsame | hagree
  · exact parameterAgrees_iff.mpr (.inl (htexts s hs t ht hsame))
  · exact hagree

end Decl

end ApiSurface
