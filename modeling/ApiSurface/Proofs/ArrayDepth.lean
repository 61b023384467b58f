import ApiSurface.Proofs.TrimmedTypes

/-! # Array depth and generic arguments

How many angle brackets are open after a text depends on nothing but the number before it. So a scan for the
text outside of all brackets can be cut anywhere and goes on with that number. A text with balanced brackets
leaves it as it was, and array levels are counted as if its generic arguments were not there. -/
namespace ApiSurface.TypeRef

variable {cs : List Char}

/-! ## Open brackets -/

/-- The number of angle brackets that are open after the text, if so many are before it. A closing bracket
that nothing opened does not count. -/
def depthAfter (depth : Nat) : List Char → Nat
  | [] => depth
  | c :: rest =>
    if c = '<' then depthAfter (depth + 1) rest
    else if c = '>' then depthAfter (depth - 1) rest
    else depthAfter depth rest

/-- What is outside of all brackets in two texts, one after the other. -/
theorem dropGenerics_append_depthAfter (depth : Nat) (cs more : List Char) :
    dropGenerics depth (cs ++ more) = dropGenerics depth cs ++ dropGenerics (depthAfter depth cs) more := by
  induction cs generalizing depth with
  | nil => rfl
  | cons c cs ih =>
    rw [List.cons_append, dropGenerics, dropGenerics, depthAfter]
    split
    · exact ih _
    · split
      · exact ih _
      · split
        · next hzero => rw [hzero, ih, List.cons_append]
        · exact ih depth

theorem depthAfter_append (depth : Nat) (cs more : List Char) :
    depthAfter depth (cs ++ more) = depthAfter (depthAfter depth cs) more := by
  induction cs generalizing depth with
  | nil => rfl
  | cons c cs ih =>
    rw [List.cons_append, depthAfter, depthAfter]
    split
    · exact ih _
    · split <;> exact ih _

/-- After a balanced text as many brackets are open as before. -/
theorem Balanced.depthAfter (h : Balanced cs) (depth : Nat) : TypeRef.depthAfter depth cs = depth := by
  induction h generalizing depth with
  | nil => rfl
  | plain hopen hclose _ ih =>
    rw [TypeRef.depthAfter, if_neg hopen, if_neg hclose]
    exact ih depth
  | nested _ _ ihinner ih =>
    rw [TypeRef.depthAfter, if_pos rfl, depthAfter_append, ihinner, TypeRef.depthAfter, if_neg (by decide),
      if_pos rfl]
    exact ih depth

/-- A generic argument list leaves no trace at any depth. -/
theorem Balanced.dropGenerics_nested (h : Balanced cs) (depth : Nat) (rest : List Char) :
    TypeRef.dropGenerics depth ('<' :: (cs ++ '>' :: rest)) = TypeRef.dropGenerics depth rest := by
  rw [TypeRef.dropGenerics, if_pos rfl, h.dropGenerics, TypeRef.dropGenerics, if_neg (by decide), if_pos rfl,
    Nat.add_sub_cancel]

/-! ## Balance by counting -/

/-- Whether the closing brackets are those that are open before the text and in it, and all of them. -/
def closes (depth : Nat) : List Char → Bool
  | [] => depth == 0
  | c :: rest =>
    if c = '<' then closes (depth + 1) rest
    else if c = '>' then depth != 0 && closes (depth - 1) rest
    else closes depth rest

/-- A balanced text behind each closing bracket, as many as there are open, and one in front of them. -/
inductive Closing : Nat → List Char → Prop where
  | last {cs : List Char} (h : Balanced cs) : Closing 0 cs
  | close {depth : Nat} {inner rest : List Char} (hinner : Balanced inner) (h : Closing depth rest) :
      Closing (depth + 1) (inner ++ '>' :: rest)

theorem Closing.plain {depth : Nat} {c : Char} (hopen : c ≠ '<') (hclose : c ≠ '>') (h : Closing depth cs) :
    Closing depth (c :: cs) := by
  cases h with
  | last h => exact .last (.plain hopen hclose h)
  | close hinner h => exact .close (.plain hopen hclose hinner) h

theorem Closing.nested {depth : Nat} (h : Closing (depth + 1) cs) : Closing depth ('<' :: cs) := by
  cases h with
  | @close _ inner rest hinner h =>
    cases h with
    | last h => exact .last (.nested hinner h)
    | @close depth inner' rest hinner' h =>
      have hboth : '<' :: (inner ++ '>' :: (inner' ++ '>' :: rest)) =
          '<' :: (inner ++ '>' :: inner') ++ '>' :: rest := by simp
      rw [hboth]
      exact .close (.nested hinner hinner') h

theorem closing_of_closes {depth : Nat} (h : closes depth cs = true) : Closing depth cs := by
  induction cs generalizing depth with
  | nil => exact eq_of_beq h ▸ .last .nil
  | cons c cs ih =>
    rw [closes] at h
    split at h
    · next hc => exact hc ▸ (ih h).nested
    · next hopen =>
      split at h
      · next hc =>
        obtain ⟨hne, h⟩ := Bool.and_eq_true_iff.mp h
        obtain ⟨depth, rfl⟩ := Nat.exists_eq_succ_of_ne_zero (bne_iff_ne.mp hne)
        exact hc ▸ .close .nil (ih h)
      · next hclose => exact (ih h).plain hopen hclose

theorem Balanced.closes_append (h : Balanced cs) (depth : Nat) (rest : List Char) :
    closes depth (cs ++ rest) = closes depth rest := by
  induction h generalizing depth rest with
  | nil => rfl
  | plain hopen hclose _ ih =>
    rw [List.cons_append, closes, if_neg hopen, if_neg hclose]
    exact ih depth rest
  | @nested inner after _ _ ihinner ih =>
    rw [List.cons_append, closes, if_pos rfl, List.append_assoc, ihinner, List.cons_append, closes,
      if_neg (by decide), if_pos rfl]
    exact ih depth rest

/-- Balance can be told by counting the brackets that are open. -/
theorem balanced_iff (cs : List Char) : Balanced cs ↔ closes 0 cs = true := by
  constructor
  · intro h
    have hcount := h.closes_append 0 []
    rwa [List.append_nil] at hcount
  · intro h
    cases closing_of_closes h with
    | last h => exact h

instance (cs : List Char) : Decidable (Balanced cs) := decidable_of_iff _ (balanced_iff cs).symm

/-! ## The text outside of brackets -/

theorem not_bracket_of_mem_dropGenerics {depth : Nat} {c : Char} (h : c ∈ dropGenerics depth cs) :
    c ≠ '<' ∧ c ≠ '>' := by
  induction cs generalizing depth with
  | nil => cases h
  | cons d cs ih =>
    rw [dropGenerics] at h
    split at h
    · exact ih h
    · next hopen =>
      split at h
      · exact ih h
      · next hclose =>
        split at h
        · rcases List.mem_cons.mp h with rfl | h
          · exact ⟨hopen, hclose⟩
          · exact ih h
        · exact ih h

theorem dropGenerics_sublist (depth : Nat) (cs : List Char) : (dropGenerics depth cs).Sublist cs := by
  induction cs generalizing depth with
  | nil => exact .slnil
  | cons c cs ih =>
    rw [dropGenerics]
    split
    · exact (ih _).cons c
    · split
      · exact (ih _).cons c
      · split
        · exact (ih 0).cons_cons c
        · exact (ih depth).cons c

theorem dropGenerics_of_plain (h : ∀ c ∈ cs, c ≠ '<' ∧ c ≠ '>') : dropGenerics 0 cs = cs := by
  have hkept := dropGenerics_append h []
  rwa [List.append_nil, show dropGenerics 0 [] = [] from rfl, List.append_nil] at hkept

/-! ## Array suffixes -/

theorem bracketPairs_dropWhile (cs : List Char) :
    bracketPairs (cs.dropWhile Text.isBlank) = bracketPairs cs := by
  induction cs with
  | nil => rfl
  | cons c cs ih =>
    rw [List.dropWhile_cons]
    split
    · next hblank =>
      rw [ih, bracketPairs_of_mark fun hpair => ne_of_isBlank hblank rfl hpair.1, if_pos hblank]
    · rfl

/-- The levels of a text that does not end in `...` are its pairs of square brackets. -/
theorem arrayLevels_of_not_isSuffix (h : ¬ellipsis <:+ Text.trimEnd cs) :
    arrayLevels cs.reverse = bracketPairs cs.reverse := by
  have hdots : ¬ellipsis <+: cs.reverse.dropWhile Text.isBlank := by
    intro hprefix
    have hsuffix := List.reverse_suffix.mpr hprefix
    exact h hsuffix
  rw [arrayLevels_of_not_ellipsis hdots, bracketPairs_dropWhile]

theorem arrayLevels_pair (cs : List Char) :
    arrayLevels (cs ++ ['[', ']']).reverse = bracketPairs cs.reverse + 1 := by
  rw [List.reverse_append]
  rfl

/-- What is behind a balanced text is read as if it stood alone. -/
theorem Balanced.dropGenerics_append (h : Balanced cs) (more : List Char) :
    TypeRef.dropGenerics 0 (cs ++ more) = TypeRef.dropGenerics 0 cs ++ TypeRef.dropGenerics 0 more := by
  rw [dropGenerics_append_depthAfter, h.depthAfter]

/-- The array levels of a type made from the text, whichever way it is made. -/
theorem arrayDimensions_of_mem {make : String → TypeRef} (h : make ∈ [TypeRef.mk, trimmed]) (text : String) :
    (make text).arrayDimensions = arrayLevels (dropGenerics 0 text.toList).reverse := by
  rcases List.mem_pair.mp h with rfl | rfl
  · rfl
  · exact arrayDimensions_trimmed text

/-! ## Balanced texts -/

/-- What holds of the array levels of a text and of the text without its generic arguments. -/
structure ReadsThroughGenerics (text : String) : Prop where
  /-- Without generic arguments there are no angle brackets. -/
  unbracketed : '<' ∉ (stripGenerics text).toList ∧ '>' ∉ (stripGenerics text).toList
  /-- Characters are only left out. -/
  sublist : (stripGenerics text).toList.Sublist text.toList
  /-- There is nothing to leave out a second time. -/
  fixed : stripGenerics (stripGenerics text) = stripGenerics text
  /-- A balanced text behind it is read as if it stood alone. -/
  append : ∀ more : String, Balanced more.toList →
    stripGenerics (text ++ more) = stripGenerics text ++ stripGenerics more
  /-- A generic argument list does not count, wherever it is inserted and whichever way the type is made. -/
  inserted : ∀ make ∈ [TypeRef.mk, trimmed], ∀ before arguments after : String,
    Balanced arguments.toList → text = before ++ after →
      (make (before ++ "<" ++ arguments ++ ">" ++ after)).arrayDimensions = (make text).arrayDimensions
  /-- A suffix is one more level, unless a final `...` stands before it. -/
  suffixes : ¬ellipsis <:+ Text.trimEnd (stripGenerics text).toList → ∀ make ∈ [TypeRef.mk, trimmed],
    (make (text ++ "[]")).arrayDimensions = (make text).arrayDimensions + 1 ∧
      (make (text ++ "...")).arrayDimensions = (make text).arrayDimensions + 1

theorem arrayDimensions_inserted {before arguments after : String} (h : Balanced arguments.toList)
    {make : String → TypeRef} (hmake : make ∈ [TypeRef.mk, trimmed]) :
    (make (before ++ "<" ++ arguments ++ ">" ++ after)).arrayDimensions =
      (make (before ++ after)).arrayDimensions := by
  have htext : (before ++ "<" ++ arguments ++ ">" ++ after).toList =
      before.toList ++ '<' :: (arguments.toList ++ '>' :: after.toList) := by
    simp [String.toList_append]
  rw [arrayDimensions_of_mem hmake, arrayDimensions_of_mem hmake, htext, String.toList_append,
    dropGenerics_append_depthAfter, dropGenerics_append_depthAfter, h.dropGenerics_nested]

/-- Balanced generic arguments can be left out piece by piece, they do not count as array levels wherever
they stand, and each suffix behind a balanced text is one more level. -/
theorem balanced_readsThroughGenerics {text : String} (h : Balanced text.toList) :
    ReadsThroughGenerics text where
  unbracketed := by
    rw [stripGenerics, String.toList_ofList]
    exact ⟨fun hmem => (not_bracket_of_mem_dropGenerics hmem).1 rfl,
      fun hmem => (not_bracket_of_mem_dropGenerics hmem).2 rfl⟩
  sublist := by
    rw [stripGenerics, String.toList_ofList]
    exact dropGenerics_sublist 0 _
  fixed := by
    rw [stripGenerics, stripGenerics, String.toList_ofList,
      dropGenerics_of_plain fun _ hc => not_bracket_of_mem_dropGenerics hc]
  append := by
    intro more _
    rw [stripGenerics, String.toList_append, h.dropGenerics_append, String.ofList_append]
    rfl
  inserted := by
    rintro make hmake before arguments after harguments rfl
    exact arrayDimensions_inserted harguments hmake
  suffixes := by
    intro hends make hmake
    rw [stripGenerics, String.toList_ofList] at hends
    have hpair : dropGenerics 0 "[]".toList = ['[', ']'] := by decide
    have hdots : dropGenerics 0 "...".toList = ellipsis := by decide
    rw [arrayDimensions_of_mem hmake, arrayDimensions_of_mem hmake, arrayDimensions_of_mem hmake,
      String.toList_append, String.toList_append, h.dropGenerics_append, h.dropGenerics_append, hpair, hdots,
      arrayLevels_pair, arrayLevels_ellipsis, arrayLevels_of_not_isSuffix hends]
    exact ⟨rfl, rfl⟩

/-- Two arguments with arguments of their own, an array and blanks. -/
theorem balanced_readsThroughGenerics_nested :
    ReadsThroughGenerics "java.util.Map<K, java.util.List<V>>[] " :=
  balanced_readsThroughGenerics (by decide +kernel)

end ApiSurface.TypeRef
