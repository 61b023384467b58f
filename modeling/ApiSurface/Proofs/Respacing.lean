import Mathlib.Logic.Relation
import ApiSurface.Proofs.ArrayDepth
import ApiSurface.Proofs.Silence

/-! # Spaces in generic arguments

Inside of a generic argument list, spaces next to a comma or an angle bracket mean nothing. Types that
differ in such spaces only are the same text once these are squeezed out. Nothing that a surface asks of the
structure of a type depends on them, because all scans leave out the argument lists or end before them. -/
namespace ApiSurface

namespace TypeRef

variable {cs cs' : List Char} {depth : Nat} {behind : Bool}

/-! ## Squeezing -/

/-- The characters next to which spaces mean nothing in generic arguments. -/
def isDelimiter (c : Char) : Bool := c == ',' || c == '<' || c == '>'

/-- Whether a delimiter comes next, after spaces or without any. -/
def opensDelimited (cs : List Char) : Bool := (cs.dropWhile (· == ' ')).head?.any isDelimiter

/-- The characters without the spaces next to delimiters in generic arguments, when `depth` brackets are open.
Whether a delimiter came last is told by `behind`. -/
def squeeze (depth : Nat) (behind : Bool) : List Char → List Char
  | [] => []
  | c :: rest =>
    if c = ' ' ∧ 0 < depth ∧ (behind || opensDelimited rest) = true then squeeze depth behind rest
    else c :: squeeze (depthAfter depth [c]) (isDelimiter c) rest

/-- The type without the spaces that mean nothing. -/
def squeezed (t : TypeRef) : TypeRef := ⟨String.ofList (squeeze 0 false t.text.toList)⟩

theorem toList_squeezed (t : TypeRef) : t.squeezed.text.toList = squeeze 0 false t.text.toList :=
  String.toList_ofList

theorem squeeze_cons (depth : Nat) (behind : Bool) (c : Char) (rest : List Char) :
    squeeze depth behind (c :: rest) =
      if c = ' ' ∧ 0 < depth ∧ (behind || opensDelimited rest) = true then squeeze depth behind rest
      else c :: squeeze (depthAfter depth [c]) (isDelimiter c) rest := rfl

/-- Outside of all brackets nothing is squeezed. -/
theorem squeeze_zero_cons (behind : Bool) (c : Char) (rest : List Char) :
    squeeze 0 behind (c :: rest) = c :: squeeze (depthAfter 0 [c]) (isDelimiter c) rest := by
  rw [squeeze_cons, if_neg]
  rintro ⟨-, hdepth, -⟩
  exact Nat.lt_irrefl 0 hdepth

theorem depthAfter_cons (depth : Nat) (c : Char) (rest : List Char) :
    depthAfter depth (c :: rest) = depthAfter (depthAfter depth [c]) rest :=
  depthAfter_append depth [c] rest

/-! ## What does not depend on the spaces -/

/-- The text outside of all brackets, -/
theorem dropGenerics_squeeze (depth : Nat) (behind : Bool) (cs : List Char) :
    dropGenerics depth (squeeze depth behind cs) = dropGenerics depth cs := by
  induction cs generalizing depth behind with
  | nil => rfl
  | cons c rest ih =>
    rw [squeeze_cons]
    split
    · next hdropped =>
      obtain ⟨rfl, hdepth, -⟩ := hdropped
      rw [ih, dropGenerics, if_neg (by decide), if_neg (by decide), if_neg (Nat.pos_iff_ne_zero.mp hdepth)]
    · have hcons : ∀ more, dropGenerics depth (c :: more) =
          dropGenerics depth [c] ++ dropGenerics (depthAfter depth [c]) more :=
        dropGenerics_append_depthAfter depth [c]
      rw [hcons, ih, ← hcons]

/-- the text up to the first bracket, -/
theorem takeWhile_squeeze (behind : Bool) (cs : List Char) :
    (squeeze 0 behind cs).takeWhile (fun c => !endsBase c) = cs.takeWhile fun c => !endsBase c := by
  induction cs generalizing behind with
  | nil => rfl
  | cons c rest ih =>
    rw [squeeze_zero_cons, List.takeWhile_cons, List.takeWhile_cons]
    split
    · next hbase =>
      have hopen : c ≠ '<' := by
        rintro rfl
        cases hbase
      have hdepth : depthAfter 0 [c] = 0 := by
        rw [depthAfter, if_neg hopen]
        split <;> rfl
      rw [hdepth, ih]
    · rfl

/-- and the characters that are not blank are the same. -/
theorem filter_squeeze (depth : Nat) (behind : Bool) (cs : List Char) :
    (squeeze depth behind cs).filter (fun c => !Text.isBlank c) = cs.filter fun c => !Text.isBlank c := by
  induction cs generalizing depth behind with
  | nil => rfl
  | cons c rest ih =>
    rw [squeeze_cons]
    split
    · next hdropped =>
      obtain ⟨rfl, -, -⟩ := hdropped
      rw [ih, List.filter_cons_of_neg (by decide)]
    · rw [List.filter_cons, List.filter_cons, ih]

/-- What comes next and is not squeezed out is a delimiter, if one comes next after spaces. -/
theorem head?_squeeze (hdepth : 0 < depth) (h : opensDelimited cs = true) :
    ∃ c ∈ (squeeze depth behind cs).head?, isDelimiter c = true := by
  induction cs with
  | nil => cases h
  | cons c rest ih =>
    rw [squeeze_cons]
    split
    · next hdropped =>
      obtain ⟨rfl, -, -⟩ := hdropped
      exact ih h
    · next hkept =>
      refine ⟨c, rfl, ?_⟩
      by_cases hc : c = ' '
      · subst hc
        have hrest : opensDelimited rest = true := h
        exact (hkept ⟨rfl, hdepth, Bool.or_eq_true_iff.mpr (.inr hrest)⟩).elim
      · have hspace : (c == ' ') = false := beq_eq_false_iff_ne.mpr hc
        rwa [opensDelimited, List.dropWhile_cons, hspace, if_neg Bool.false_ne_true, List.head?_cons,
          Option.any_some] at h

/-- Dots alone, after what is no delimiter, have been dots alone before. -/
theorem squeeze_eq_dots {k : Nat} (h : squeeze depth false cs = List.replicate k '.') :
    cs = List.replicate k '.' := by
  induction cs generalizing k with
  | nil => exact h
  | cons c rest ih =>
    rw [squeeze_cons] at h
    split at h
    · next hdropped =>
      obtain ⟨-, hdepth, hnext⟩ := hdropped
      have hfirst : ∃ c ∈ (squeeze depth false rest).head?, isDelimiter c = true :=
        head?_squeeze hdepth ((Bool.false_or _).symm.trans hnext)
      obtain ⟨d, hd, hdelimiter⟩ := hfirst
      rw [h] at hd
      rw [List.eq_of_mem_replicate (List.mem_of_mem_head? hd)] at hdelimiter
      cases hdelimiter
    · cases k with
      | zero => cases h
      | succ k =>
        obtain ⟨rfl, hrest⟩ := List.cons.inj h
        exact congrArg ('.' :: ·) (ih hrest)

/-- A final `...` stays, and none comes about. -/
theorem ellipsis_isSuffix_squeeze (depth : Nat) (behind : Bool) (cs : List Char) :
    ellipsis <:+ squeeze depth behind cs ↔ ellipsis <:+ cs := by
  induction cs generalizing depth behind with
  | nil => exact Iff.rfl
  | cons c rest ih =>
    rw [squeeze_cons]
    split
    · next hdropped =>
      obtain ⟨rfl, -, -⟩ := hdropped
      rw [ih, List.suffix_cons_iff]
      exact ⟨.inr, fun h => h.resolve_left fun hdots => by cases hdots⟩
    · rw [List.suffix_cons_iff, List.suffix_cons_iff, ih]
      refine or_congr_left ⟨fun h => ?_, fun h => ?_⟩
      · obtain ⟨rfl, hmore⟩ := List.cons.inj h
        exact congrArg ('.' :: ·) (squeeze_eq_dots (k := 2) hmore.symm).symm
      · obtain ⟨rfl, rfl⟩ := List.cons.inj h
        rfl

section Types

variable (t : TypeRef)

theorem arrayDimensions_squeezed : t.squeezed.arrayDimensions = t.arrayDimensions := by
  rw [arrayDimensions, arrayDimensions, toList_squeezed, dropGenerics_squeeze]

theorem baseName_squeezed : t.squeezed.baseName = t.baseName := by
  rw [baseName, baseName, baseChars, baseChars, toList_squeezed, takeWhile_squeeze]

theorem erased_squeezed : t.squeezed.erased = t.erased := by
  rw [erased, erased, baseName_squeezed, arrayDimensions_squeezed]

theorem isVarargs_squeezed : t.squeezed.isVarargs = t.isVarargs := by
  rw [isVarargs, isVarargs, toList_squeezed, Bool.eq_iff_iff, List.isSuffixOf_iff_suffix,
    List.isSuffixOf_iff_suffix, ellipsis_isSuffix_squeeze]

end Types

/-! ## Spaces, one at a time -/

/-- The second text has one more space, which stands in generic arguments and next to a delimiter. -/
def SpacedOnce (cs cs' : List Char) : Prop :=
  ∃ before after, cs = before ++ after ∧ cs' = before ++ ' ' :: after ∧ 0 < depthAfter 0 before ∧
    ((∃ c ∈ before.getLast?, isDelimiter c = true) ∨ ∃ c ∈ after.head?, isDelimiter c = true)

theorem opensDelimited_of_head? {after : List Char} (h : ∃ c ∈ after.head?, isDelimiter c = true) :
    opensDelimited after = true := by
  obtain ⟨c, hc, hdelimiter⟩ := h
  cases after with
  | nil => cases hc
  | cons d rest =>
    cases hc
    have hspace : (c == ' ') = false := by
      rw [beq_eq_false_iff_ne]
      rintro rfl
      cases hdelimiter
    rw [opensDelimited, List.dropWhile_cons, hspace, if_neg Bool.false_ne_true]
    exact hdelimiter

theorem opensDelimited_space (before after : List Char) :
    opensDelimited (before ++ ' ' :: after) = opensDelimited (before ++ after) := by
  have hspace : ((' ' : Char) == ' ') = true := rfl
  unfold opensDelimited
  rw [List.dropWhile_append, List.dropWhile_append, List.dropWhile_cons, if_pos hspace]
  cases before.dropWhile (· == ' ') <;> rfl

/-- A delimiter ends a text of more than one character iff it ends what is behind the first one. -/
theorem endsDelimited_cons {c : Char} {before : List Char}
    (h : ∃ d ∈ (c :: before).getLast?, isDelimiter d = true) :
    (before = [] ∧ isDelimiter c = true) ∨ ∃ d ∈ before.getLast?, isDelimiter d = true := by
  cases before with
  | nil =>
    obtain ⟨d, hd, hdelimiter⟩ := h
    cases hd
    exact .inl ⟨rfl, hdelimiter⟩
  | cons d before => exact .inr h

/-- A space that means nothing is squeezed out. -/
theorem squeeze_space {before after : List Char} (hdepth : 0 < depthAfter depth before)
    (h : (before = [] ∧ behind = true) ∨ (∃ c ∈ before.getLast?, isDelimiter c = true) ∨
      ∃ c ∈ after.head?, isDelimiter c = true) :
    squeeze depth behind (before ++ ' ' :: after) = squeeze depth behind (before ++ after) := by
  induction before generalizing depth behind with
  | nil =>
    have hnext : (behind || opensDelimited after) = true := by
      rcases h with ⟨-, hbehind⟩ | ⟨c, hc, -⟩ | hafter
      · rw [hbehind, Bool.true_or]
      · cases hc
      · rw [opensDelimited_of_head? hafter, Bool.or_true]
    rw [List.nil_append, List.nil_append, squeeze_cons, if_pos ⟨rfl, hdepth, hnext⟩]
  | cons c before ih =>
    have hends : (before = [] ∧ isDelimiter c = true) ∨ (∃ d ∈ before.getLast?, isDelimiter d = true) ∨
        ∃ d ∈ after.head?, isDelimiter d = true := by
      rcases h with ⟨hnil, -⟩ | hlast | hafter
      · cases hnil
      · exact (endsDelimited_cons hlast).imp_right .inl
      · exact .inr (.inr hafter)
    rw [depthAfter_cons] at hdepth
    rw [List.cons_append, List.cons_append, squeeze_cons, squeeze_cons, opensDelimited_space]
    split
    · next hdropped =>
      obtain ⟨rfl, -, -⟩ := hdropped
      exact ih hdepth (hends.imp_left fun hspace => nomatch hspace.2)
    · rw [ih hdepth hends]

theorem squeeze_of_eqvGen (h : Relation.EqvGen SpacedOnce cs cs') :
    squeeze 0 false cs = squeeze 0 false cs' := by
  induction h with
  | rel _ _ h =>
    obtain ⟨before, after, rfl, rfl, hdepth, hends⟩ := h
    exact (squeeze_space hdepth (.inr hends)).symm
  | refl _ => rfl
  | symm _ _ _ ih => exact ih.symm
  | trans _ _ _ _ _ ih ih' => exact ih.trans ih'

/-- In front of a delimiter that comes after spaces, one of these can be left out. -/
theorem spacedOnce_of_opensDelimited {before rest : List Char} (hdepth : 0 < depthAfter 0 before)
    (h : opensDelimited rest = true) : SpacedOnce (before ++ rest) (before ++ ' ' :: rest) := by
  induction rest generalizing before with
  | nil => cases h
  | cons c rest ih =>
    by_cases hc : c = ' '
    · subst hc
      have hmore : SpacedOnce ((before ++ [' ']) ++ rest) ((before ++ [' ']) ++ ' ' :: rest) :=
        ih (by rw [depthAfter_append]; exact hdepth) h
      rwa [List.append_assoc, List.append_assoc] at hmore
    · have hspace : (c == ' ') = false := beq_eq_false_iff_ne.mpr hc
      rw [opensDelimited, List.dropWhile_cons, hspace, if_neg Bool.false_ne_true] at h
      exact ⟨before, c :: rest, rfl, rfl, hdepth, .inr ⟨c, rfl, h⟩⟩

/-- Squeezing takes out one space after the other. -/
theorem eqvGen_squeeze (before cs : List Char) :
    Relation.EqvGen SpacedOnce (before ++ squeeze (depthAfter 0 before) (before.getLast?.any isDelimiter) cs)
      (before ++ cs) := by
  induction cs generalizing before with
  | nil => exact .refl _
  | cons c rest ih =>
    rw [squeeze_cons]
    split
    · next hdropped =>
      obtain ⟨rfl, hdepth, hnext⟩ := hdropped
      refine (ih before).trans _ _ _ (.rel _ _ ?_)
      rcases Bool.or_eq_true_iff.mp hnext with hbehind | hafter
      · exact ⟨before, rest, rfl, rfl, hdepth, .inl ((Option.any_eq_true _ _).mp hbehind)⟩
      · exact spacedOnce_of_opensDelimited hdepth hafter
    · have hmore := ih (before ++ [c])
      rw [depthAfter_append, List.getLast?_concat, List.append_assoc, List.append_assoc] at hmore
      exact hmore

/-- Types are squeezed to the same one iff spaces that mean nothing can be inserted and left out, one by one,
until their texts are the same. -/
theorem squeezed_eq_iff (s t : TypeRef) :
    s.squeezed = t.squeezed ↔ Relation.EqvGen SpacedOnce s.text.toList t.text.toList := by
  have hsqueeze : s.squeezed = t.squeezed ↔
      squeeze 0 false s.text.toList = squeeze 0 false t.text.toList := by
    rw [squeezed, squeezed, TypeRef.mk.injEq, String.ofList_inj]
  rw [hsqueeze]
  refine ⟨fun h => ?_, squeeze_of_eqvGen⟩
  have hs := eqvGen_squeeze [] s.text.toList
  have ht := eqvGen_squeeze [] t.text.toList
  exact hs.symm.trans _ _ _ (h ▸ ht)

example : (⟨"java.util.Map< ? extends K , V > []"⟩ : TypeRef).squeezed =
    ⟨"java.util.Map<? extends K,V> []"⟩ := by decide +kernel

end TypeRef

end ApiSurface
