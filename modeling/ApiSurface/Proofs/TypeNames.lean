import Mathlib.Data.List.Forall2
import ApiSurface.TypeRef

/-! # Names in types

The text of a type is a sequence of names, which may be qualified, and of marks between them. A type is
respelled if some of its names are replaced by others. The questions about the structure of a type follow
the names: a respelled type has as many array levels as before, and its base name is the old one
respelled. -/
namespace ApiSurface.TypeRef

/-! ## Pieces -/

def separates (c : Char) : Bool :=
  Text.isBlank c || ['<', '>', '[', ']', ',', '&', '|', '?', '(', ')', '@', ':'].contains c

inductive Piece where
  | mark (c : Char)
  | name (cs : List Char)
  deriving DecidableEq

/-- The pieces of a text. A dot belongs to a name if the name goes on after it. -/
def pieces : List Char → List Piece
  | [] => []
  | c :: rest =>
    match pieces rest with
    | .name cs :: more => if separates c then .mark c :: .name cs :: more else .name (c :: cs) :: more
    | more => if separates c || c == '.' then .mark c :: more else .name [c] :: more

/-- The character belongs to no name, or only as a dot inside of one. -/
def IsMark (c : Char) : Prop := separates c = true ∨ c = '.'

structure IsName (cs : List Char) : Prop where
  ne_nil : cs ≠ []
  unbroken : ∀ c ∈ cs, separates c = false
  ends : ∀ h : cs ≠ [], cs.getLast h ≠ '.'

/-- No name starts here. -/
def StartsMarked (cs : List Char) : Prop := ∀ c ∈ cs.head?, IsMark c

/-- The first character goes to the name behind it, or no name stands behind it. -/
theorem pieces_cons (c : Char) (rest : List Char) :
    (∃ w more, pieces rest = .name w :: more ∧
        pieces (c :: rest) = if separates c then .mark c :: pieces rest else .name (c :: w) :: more) ∨
      (∀ w more, pieces rest ≠ .name w :: more) ∧
        pieces (c :: rest) = if separates c || c == '.' then .mark c :: pieces rest
          else .name [c] :: pieces rest := by
  rw [pieces]
  split
  · next w more hrest => exact .inl ⟨w, more, hrest, by rw [hrest]⟩
  · next hnoname => exact .inr ⟨hnoname, rfl⟩

theorem pieces_eq_nil {cs : List Char} (h : pieces cs = []) : cs = [] := by
  cases cs with
  | nil => rfl
  | cons c rest =>
    rcases pieces_cons c rest with ⟨_, _, _, heq⟩ | ⟨_, heq⟩
    all_goals
      rw [heq] at h
      split at h <;> cases h

theorem pieces_eq_mark {cs : List Char} {c : Char} {more : List Piece} (h : pieces cs = .mark c :: more) :
    ∃ rest, cs = c :: rest ∧ pieces rest = more ∧ IsMark c := by
  cases cs with
  | nil => cases h
  | cons d rest =>
    rcases pieces_cons d rest with ⟨_, _, _, heq⟩ | ⟨_, heq⟩
    all_goals rw [heq] at h
    · split at h
      · next hd =>
        cases h
        exact ⟨rest, rfl, rfl, .inl hd⟩
      · cases h
    · split at h
      · next hd =>
        cases h
        simp only [Bool.or_eq_true, beq_iff_eq] at hd
        exact ⟨rest, rfl, rfl, hd⟩
      · cases h

/-- A text that does not start with a name starts with a mark. -/
theorem startsMarked_of_pieces {cs : List Char} (h : ∀ w more, pieces cs ≠ .name w :: more) : StartsMarked cs := by
  intro c hc
  cases hpieces : pieces cs with
  | nil =>
    rw [pieces_eq_nil hpieces] at hc
    cases hc
  | cons p more =>
    cases p with
    | name w => exact (h w more hpieces).elim
    | mark e =>
      obtain ⟨rest, rfl, _, he⟩ := pieces_eq_mark hpieces
      cases hc
      exact he

theorem pieces_eq_name {cs w : List Char} {more : List Piece} (h : pieces cs = .name w :: more) :
    ∃ rest, cs = w ++ rest ∧ pieces rest = more ∧ IsName w ∧ StartsMarked rest := by
  induction cs generalizing w more with
  | nil => cases h
  | cons c rest ih =>
    rcases pieces_cons c rest with ⟨v, m, hrest, heq⟩ | ⟨hnoname, heq⟩
    all_goals rw [heq] at h
    · split at h
      · cases h
      · next hc =>
        cases h
        obtain ⟨after, rfl, hafter, hv, hstart⟩ := ih hrest
        refine ⟨after, rfl, hafter, ⟨List.cons_ne_nil _ _, ?_, fun _ => ?_⟩, hstart⟩
        · intro d hd
          rcases List.mem_cons.mp hd with rfl | hd
          · exact Bool.not_eq_true _ ▸ hc
          · exact hv.unbroken d hd
        · rw [List.getLast_cons hv.ne_nil]
          exact hv.ends hv.ne_nil
    · split at h
      · cases h
      · next hc =>
        cases h
        simp only [Bool.or_eq_true, beq_iff_eq, not_or] at hc
        refine ⟨rest, rfl, rfl, ⟨List.cons_ne_nil _ _, ?_, fun _ => hc.2⟩, startsMarked_of_pieces hnoname⟩
        intro d hd
        rw [List.mem_singleton.mp hd]
        exact Bool.not_eq_true _ ▸ hc.1

/-- The second piece is the first one, or a name that stands for it. -/
def Piece.Stands (R : String → String → Prop) : Piece → Piece → Prop
  | .mark c, .mark c' => c = c'
  | .name cs, .name cs' => R (String.ofList cs) (String.ofList cs')
  | _, _ => False

instance {R : String → String → Prop} [DecidableRel R] : DecidableRel (Piece.Stands R)
  | .mark c, .mark c' => inferInstanceAs (Decidable (c = c'))
  | .name cs, .name cs' => inferInstanceAs (Decidable (R (String.ofList cs) (String.ofList cs')))
  | .mark _, .name _ => inferInstanceAs (Decidable False)
  | .name _, .mark _ => inferInstanceAs (Decidable False)

/-! ## Respelled texts -/

/-- The second text is the first one with names replaced, where `R` tells which names stand for which. -/
inductive Respelled (R : String → String → Prop) : List Char → List Char → Prop where
  | nil : Respelled R [] []
  | mark {c : Char} {rest rest' : List Char} (hc : IsMark c) (h : Respelled R rest rest') :
      Respelled R (c :: rest) (c :: rest')
  | name {w w' rest rest' : List Char} (hw : IsName w) (hw' : IsName w')
      (hR : R (String.ofList w) (String.ofList w')) (hstart : StartsMarked rest)
      (hstart' : StartsMarked rest') (h : Respelled R rest rest') : Respelled R (w ++ rest) (w' ++ rest')

variable {R : String → String → Prop} {cs cs' : List Char}

theorem respelled_of_pieces {ps ps' : List Piece} (h : List.Forall₂ (Piece.Stands R) ps ps')
    (hps : pieces cs = ps) (hps' : pieces cs' = ps') : Respelled R cs cs' := by
  induction h generalizing cs cs' with
  | nil =>
    rw [pieces_eq_nil hps, pieces_eq_nil hps']
    exact .nil
  | @cons p p' _ _ hp _ ih =>
    cases p with
    | mark c =>
      cases p' with
      | mark c' =>
        cases hp
        obtain ⟨rest, rfl, hrest, hc⟩ := pieces_eq_mark hps
        obtain ⟨rest', rfl, hrest', _⟩ := pieces_eq_mark hps'
        exact .mark hc (ih hrest hrest')
      | name w' => exact hp.elim
    | name w =>
      cases p' with
      | mark c' => exact hp.elim
      | name w' =>
        obtain ⟨rest, rfl, hrest, hw, hstart⟩ := pieces_eq_name hps
        obtain ⟨rest', rfl, hrest', hw', hstart'⟩ := pieces_eq_name hps'
        exact .name hw hw' hp hstart hstart' (ih hrest hrest')

/-! ## Base names follow the names -/

theorem StartsMarked.of_prefix {start : List Char} (h : StartsMarked cs) (hp : start <+: cs) :
    StartsMarked start := by
  obtain ⟨rest, rfl⟩ := hp
  cases start with
  | nil => exact fun _ hc => by cases hc
  | cons c start => exact h

theorem not_isBlank {c : Char} (h : separates c = false) : Text.isBlank c = false :=
  (Bool.or_eq_false_iff.mp h).1

theorem not_endsBase {c : Char} (h : separates c = false) : endsBase c = false := by
  cases hc : endsBase c with
  | false => rfl
  | true =>
    simp only [endsBase, Bool.or_eq_true, beq_iff_eq] at hc
    rcases hc with rfl | rfl <;> cases h

theorem dropEllipsis_isPrefix (cs : List Char) : dropEllipsis cs <+: cs := by
  unfold dropEllipsis
  split
  · exact List.take_prefix _ _
  · exact List.prefix_rfl

theorem dropEllipsis_cons {c : Char} (h : c :: cs ≠ ellipsis) : dropEllipsis (c :: cs) = c :: dropEllipsis cs := by
  have hsuffix : ellipsis.isSuffixOf (c :: cs) = ellipsis.isSuffixOf cs := by
    rw [Bool.eq_iff_iff, List.isSuffixOf_iff_suffix, List.isSuffixOf_iff_suffix, List.suffix_cons_iff,
      or_iff_right (Ne.symm h)]
  unfold dropEllipsis
  rw [hsuffix]
  split
  · next hs =>
    have hlength : ellipsis.length ≤ cs.length := (List.isSuffixOf_iff_suffix.mp hs).length_le
    rw [List.length_cons, Nat.succ_sub hlength, List.take_succ_cons]
  · rfl

theorem dropEllipsis_append {w : List Char} (hw : IsName w) : dropEllipsis (w ++ cs) = w ++ dropEllipsis cs := by
  have h : ∀ w : List Char, (∀ h : w ≠ [], w.getLast h ≠ '.') →
      dropEllipsis (w ++ cs) = w ++ dropEllipsis cs := by
    intro w hends
    induction w with
    | nil => rfl
    | cons c w ih =>
      have hne : c :: (w ++ cs) ≠ ellipsis := by
        intro he
        have hall : ∀ d ∈ c :: (w ++ cs), d = '.' := by
          rw [he]
          simp [ellipsis]
        refine hends (List.cons_ne_nil c w) (hall _ ?_)
        rw [← List.cons_append]
        exact List.mem_append_left _ (List.getLast_mem _)
      rw [List.cons_append, dropEllipsis_cons hne, ih fun hw => ?_, List.cons_append]
      rw [← List.getLast_cons hw]
      exact hends (List.cons_ne_nil c w)
  exact h w hw.ends

theorem trimEnd_isPrefix (cs : List Char) : Text.trimEnd cs <+: cs := by
  have h := (List.dropWhile_suffix Text.isBlank (l := cs.reverse)).reverse
  rwa [List.reverse_reverse] at h

theorem trimEnd_append (cs more : List Char) : Text.trimEnd (cs ++ more) =
    if (Text.trimEnd more).isEmpty then Text.trimEnd cs else cs ++ Text.trimEnd more := by
  unfold Text.trimEnd
  rw [List.reverse_append, List.dropWhile_append, List.isEmpty_reverse]
  split
  · rfl
  · rw [List.reverse_append, List.reverse_reverse]

theorem trimEnd_name {w : List Char} (hw : IsName w) : Text.trimEnd (w ++ cs) = w ++ Text.trimEnd cs := by
  have hself : Text.trimEnd w = w := by
    unfold Text.trimEnd
    cases hr : w.reverse with
    | nil => exact (hw.ne_nil (List.reverse_eq_nil_iff.mp hr)).elim
    | cons c rest =>
      have hc : c ∈ w := List.mem_reverse.mp (hr ▸ List.mem_cons_self)
      rw [List.dropWhile_cons, not_isBlank (hw.unbroken c hc), if_neg Bool.false_ne_true, ← hr,
        List.reverse_reverse]
  rw [trimEnd_append, hself]
  split
  · next h => rw [List.isEmpty_iff.mp h, List.append_nil]
  · rfl

namespace Respelled

theorem eq_nil_iff (h : Respelled R cs cs') : cs = [] ↔ cs' = [] := by
  cases h with
  | nil => exact Iff.rfl
  | mark => simp
  | name hw hw' => simp [hw.ne_nil, hw'.ne_nil]

/-- Dots alone contain no name. -/
theorem eq_replicate_iff (h : Respelled R cs cs') (k : Nat) :
    cs = List.replicate k '.' ↔ cs' = List.replicate k '.' := by
  have hname : ∀ {w rest : List Char}, IsName w → ∀ k, w ++ rest ≠ List.replicate k '.' := by
    intro w rest hw k he
    refine hw.ends hw.ne_nil (List.eq_of_mem_replicate (n := k) ?_)
    rw [← he]
    exact List.mem_append_left _ (List.getLast_mem _)
  induction h generalizing k with
  | nil => exact Iff.rfl
  | mark _ _ ih =>
    cases k with
    | zero => simp
    | succ k => simp only [List.replicate_succ, List.cons.injEq, ih]
  | name hw hw' => exact iff_of_false (hname hw k) (hname hw' k)

theorem takeWhile (h : Respelled R cs cs') : Respelled R (cs.takeWhile fun c => !endsBase c)
    (cs'.takeWhile fun c => !endsBase c) := by
  have hall : ∀ {w : List Char}, IsName w → ∀ c ∈ w, (!endsBase c) = true := by
    intro w hw c hc
    rw [not_endsBase (hw.unbroken c hc)]
    rfl
  induction h with
  | nil => exact .nil
  | mark hc _ ih =>
    rw [List.takeWhile_cons, List.takeWhile_cons]
    split
    · exact .mark hc ih
    · exact .nil
  | name hw hw' hR hstart hstart' _ ih =>
    rw [List.takeWhile_append_of_pos (hall hw), List.takeWhile_append_of_pos (hall hw')]
    exact .name hw hw' hR (hstart.of_prefix (List.takeWhile_prefix _)) (hstart'.of_prefix (List.takeWhile_prefix _)) ih

theorem dropEllipsis (h : Respelled R cs cs') :
    Respelled R (TypeRef.dropEllipsis cs) (TypeRef.dropEllipsis cs') := by
  induction h with
  | nil => exact .nil
  | @mark c rest rest' hc h ih =>
    have hdots := (Respelled.mark hc h).eq_replicate_iff 3
    by_cases he : c :: rest = ellipsis
    · rw [he, show c :: rest' = ellipsis from hdots.mp he]
      exact .nil
    · rw [dropEllipsis_cons he, dropEllipsis_cons fun he' => he (hdots.mpr he')]
      exact .mark hc ih
  | name hw hw' hR hstart hstart' _ ih =>
    rw [dropEllipsis_append hw, dropEllipsis_append hw']
    exact .name hw hw' hR (hstart.of_prefix (dropEllipsis_isPrefix _)) (hstart'.of_prefix (dropEllipsis_isPrefix _)) ih

theorem trimEnd (h : Respelled R cs cs') : Respelled R (Text.trimEnd cs) (Text.trimEnd cs') := by
  induction h with
  | nil => exact .nil
  | @mark c rest rest' hc _ ih =>
    have hempty : (Text.trimEnd rest).isEmpty = (Text.trimEnd rest').isEmpty := by
      rw [Bool.eq_iff_iff, List.isEmpty_iff, List.isEmpty_iff, ih.eq_nil_iff]
    have hcons : ∀ rest : List Char, c :: rest = [c] ++ rest := fun _ => rfl
    rw [hcons rest, hcons rest', trimEnd_append, trimEnd_append, hempty]
    split
    · cases hb : Text.isBlank c with
      | true =>
        have hnil : Text.trimEnd [c] = [] := by simp [Text.trimEnd, hb]
        rw [hnil]
        exact .nil
      | false =>
        have hsame : Text.trimEnd [c] = [c] := by simp [Text.trimEnd, hb]
        rw [hsame]
        exact .mark hc .nil
    · exact .mark hc ih
  | name hw hw' hR hstart hstart' _ ih =>
    rw [trimEnd_name hw, trimEnd_name hw']
    exact .name hw hw' hR (hstart.of_prefix (trimEnd_isPrefix _)) (hstart'.of_prefix (trimEnd_isPrefix _)) ih

theorem dropBlanks (h : Respelled R cs cs') :
    Respelled R (cs.dropWhile Text.isBlank) (cs'.dropWhile Text.isBlank) := by
  have hname : ∀ {w rest : List Char}, IsName w → (w ++ rest).dropWhile Text.isBlank = w ++ rest := by
    intro w rest hw
    cases w with
    | nil => exact (hw.ne_nil rfl).elim
    | cons c w =>
      rw [List.cons_append, List.dropWhile_cons, not_isBlank (hw.unbroken c List.mem_cons_self),
        if_neg Bool.false_ne_true]
  induction h with
  | nil => exact .nil
  | mark hc h ih =>
    rw [List.dropWhile_cons, List.dropWhile_cons]
    split
    · exact ih
    · exact .mark hc h
  | name hw hw' hR hstart hstart' h _ =>
    rw [hname hw, hname hw']
    exact .name hw hw' hR hstart hstart' h

/-- The base name of a respelled type is the base name respelled. -/
theorem baseChars (h : Respelled R cs cs') : Respelled R (TypeRef.baseChars cs) (TypeRef.baseChars cs') :=
  h.takeWhile.dropEllipsis.dropBlanks.trimEnd

theorem symm (h : Respelled R cs cs') : Respelled (fun n n' => R n' n) cs' cs := by
  induction h with
  | nil => exact .nil
  | mark hc _ ih => exact .mark hc ih
  | name hw hw' hR hstart hstart' _ ih => exact .name hw' hw hR hstart' hstart ih

end Respelled

/-- The characters are a name of its own, as that of a type parameter is. -/
structure IsPlain (cs : List Char) : Prop where
  ne_nil : cs ≠ []
  unmarked : ∀ c ∈ cs, ¬IsMark c

instance (cs : List Char) : Decidable (IsPlain cs) :=
  decidable_of_iff (cs ≠ [] ∧ (cs.any fun c => separates c || c == '.') = false) <| by
    simp only [List.any_eq_false, Bool.or_eq_true, beq_iff_eq]
    exact ⟨fun h => ⟨h.1, h.2⟩, fun h => ⟨h.ne_nil, h.unmarked⟩⟩

/-- A text that is nothing but a plain name is respelled as another name. -/
theorem Respelled.of_plain (h : Respelled R cs cs') (hcs : IsPlain cs) :
    R (String.ofList cs) (String.ofList cs') := by
  cases h with
  | nil => exact (hcs.ne_nil rfl).elim
  | mark hc => exact (hcs.unmarked _ List.mem_cons_self hc).elim
  | @name w w' rest rest' hw hw' hR hstart hstart' h =>
    have hrest : rest = [] := by
      cases rest with
      | nil => rfl
      | cons c rest => exact (hcs.unmarked c (List.mem_append_right _ List.mem_cons_self) (hstart c rfl)).elim
    rw [hrest, h.eq_nil_iff.mp hrest, List.append_nil, List.append_nil]
    exact hR

/-! ## Array levels do not depend on the names -/

/-- The texts are the same, but for plain names in the place of others. -/
inductive Reshaped : List Char → List Char → Prop where
  | nil : Reshaped [] []
  | same (c : Char) {rest rest' : List Char} (h : Reshaped rest rest') : Reshaped (c :: rest) (c :: rest')
  | name {w w' rest rest' : List Char} (hw : IsPlain w) (hw' : IsPlain w') (h : Reshaped rest rest') :
      Reshaped (w ++ rest) (w' ++ rest')

theorem IsPlain.reverse {w : List Char} (hw : IsPlain w) : IsPlain w.reverse :=
  ⟨fun h => hw.ne_nil (List.reverse_eq_nil_iff.mp h), fun c hc => hw.unmarked c (List.mem_reverse.mp hc)⟩

theorem IsPlain.separates_eq_false {w : List Char} (hw : IsPlain w) {c : Char} (hc : c ∈ w) :
    separates c = false :=
  Bool.not_eq_true _ ▸ fun h => hw.unmarked c hc (.inl h)

namespace Reshaped

theorem refl : (cs : List Char) → Reshaped cs cs
  | [] => .nil
  | c :: cs => .same c (refl cs)

theorem symm (h : Reshaped cs cs') : Reshaped cs' cs := by
  induction h with
  | nil => exact .nil
  | same c _ ih => exact .same c ih
  | name hw hw' _ ih => exact .name hw' hw ih

theorem append {ds ds' : List Char} (h : Reshaped cs cs') (hd : Reshaped ds ds') :
    Reshaped (cs ++ ds) (cs' ++ ds') := by
  induction h with
  | nil => exact hd
  | same c _ ih => exact .same c ih
  | name hw hw' _ ih =>
    rw [List.append_assoc, List.append_assoc]
    exact .name hw hw' ih

theorem reverse (h : Reshaped cs cs') : Reshaped cs.reverse cs'.reverse := by
  induction h with
  | nil => exact .nil
  | same c _ ih =>
    rw [List.reverse_cons, List.reverse_cons]
    exact ih.append (refl [c])
  | name hw hw' _ ih =>
    rw [List.reverse_append, List.reverse_append]
    refine ih.append ?_
    have h := Reshaped.name hw.reverse hw'.reverse .nil
    rwa [List.append_nil, List.append_nil] at h

theorem dropGenerics (h : Reshaped cs cs') (depth : Nat) :
    Reshaped (TypeRef.dropGenerics depth cs) (TypeRef.dropGenerics depth cs') := by
  have hname : ∀ {w : List Char}, (∀ c ∈ w, separates c = false) → ∀ (rest : List Char) (depth : Nat),
      TypeRef.dropGenerics depth (w ++ rest) =
        (if depth = 0 then w else []) ++ TypeRef.dropGenerics depth rest := by
    intro w hw rest depth
    induction w with
    | nil => split <;> rfl
    | cons c w ih =>
      have hc := hw c List.mem_cons_self
      have hopen : c ≠ '<' := fun h => by rw [h] at hc; cases hc
      have hclose : c ≠ '>' := fun h => by rw [h] at hc; cases hc
      have ih := ih fun d hd => hw d (List.mem_cons_of_mem _ hd)
      rw [List.cons_append, TypeRef.dropGenerics, if_neg hopen, if_neg hclose]
      split
      · next hd => rw [hd] at ih ⊢; rw [ih]; rfl
      · next hd => rw [ih, if_neg hd]
  induction h generalizing depth with
  | nil => exact .nil
  | same c _ ih =>
    rw [TypeRef.dropGenerics, TypeRef.dropGenerics]
    split
    · exact ih _
    · split
      · exact ih _
      · split
        · exact .same c (ih 0)
        · exact ih depth
  | name hw hw' _ ih =>
    rw [hname fun c hc => hw.separates_eq_false hc, hname fun c hc => hw'.separates_eq_false hc]
    split
    · exact .name hw hw' (ih depth)
    · exact ih depth

/-- Where a mark stands, it stands in the other text too. -/
theorem of_mark {c : Char} {rest : List Char} (h : Reshaped (c :: rest) cs') (hc : IsMark c) :
    ∃ rest', cs' = c :: rest' ∧ Reshaped rest rest' := by
  generalize hcs : c :: rest = cs at h
  cases h with
  | nil => cases hcs
  | same d h =>
    cases hcs
    exact ⟨_, rfl, h⟩
  | @name w w' rest rest' hw hw' h =>
    cases w with
    | nil => exact (hw.ne_nil rfl).elim
    | cons d w =>
      cases hcs
      exact (hw.unmarked c List.mem_cons_self hc).elim

/-- Where no mark stands, none stands in the other text either. -/
theorem of_not_mark {c : Char} {rest : List Char} (h : Reshaped (c :: rest) cs') (hc : ¬IsMark c) :
    ∃ c' rest', cs' = c' :: rest' ∧ ¬IsMark c' := by
  generalize hcs : c :: rest = cs at h
  cases h with
  | nil => cases hcs
  | same d h =>
    cases hcs
    exact ⟨_, _, rfl, hc⟩
  | @name w w' rest rest' hw hw' h =>
    cases w' with
    | nil => exact (hw'.ne_nil rfl).elim
    | cons d w' => exact ⟨d, w' ++ rest', rfl, hw'.unmarked d List.mem_cons_self⟩

theorem eq_nil (h : Reshaped [] cs') : cs' = [] := by
  generalize hcs : [] = cs at h
  cases h with
  | nil => rfl
  | same => cases hcs
  | name hw => exact (hw.ne_nil (List.append_eq_nil_iff.mp hcs.symm).1).elim

end Reshaped

theorem bracketPairs_of_not_mark {c : Char} {rest : List Char} (hc : ¬IsMark c) :
    bracketPairs (c :: rest) = 0 := by
  have hb : Text.isBlank c = false := by
    cases h : Text.isBlank c with
    | false => rfl
    | true => exact (hc (.inl (Bool.or_eq_true_iff.mpr (.inl h)))).elim
  unfold bracketPairs
  split
  · next h =>
    cases h
    exact (hc (.inl (by decide))).elim
  · next h =>
    cases h
    rw [hb, if_neg Bool.false_ne_true]
  · rfl

/-- A pair of brackets is counted, and a blank is skipped. -/
theorem bracketPairs_of_mark {c : Char} {rest : List Char} (hrest : ¬(c = ']' ∧ ∃ more, rest = '[' :: more)) :
    bracketPairs (c :: rest) = if Text.isBlank c then bracketPairs rest else 0 := by
  rw [bracketPairs.eq_def (c :: rest)]
  split
  · next more h =>
    cases h
    exact (hrest ⟨rfl, more, rfl⟩).elim
  · next h =>
    cases h
    rfl
  · next h => cases h

namespace Reshaped

theorem bracketPairs (h : Reshaped cs cs') : TypeRef.bracketPairs cs' = TypeRef.bracketPairs cs := by
  fun_induction TypeRef.bracketPairs cs generalizing cs' with
  | case1 rest ih =>
    obtain ⟨opened, rfl, hopened⟩ := h.of_mark (.inl (by decide))
    obtain ⟨after, rfl, hafter⟩ := hopened.of_mark (.inl (by decide))
    exact congrArg (· + 1) (ih hafter)
  | case2 c rest hpair hblank ih =>
    have hc : IsMark c := .inl (Bool.or_eq_true_iff.mpr (.inl hblank))
    obtain ⟨after, rfl, hafter⟩ := h.of_mark hc
    have hne : c ≠ ']' := by rintro rfl; cases hblank
    rw [bracketPairs_of_mark fun h => hne h.1, if_pos hblank, ih hafter]
  | case3 c rest hpair hblank =>
    by_cases hc : IsMark c
    · obtain ⟨after, rfl, hafter⟩ := h.of_mark hc
      rw [bracketPairs_of_mark, if_neg hblank]
      rintro ⟨rfl, more, rfl⟩
      obtain ⟨before, rfl, _⟩ := hafter.symm.of_mark (.inl (by decide))
      exact hpair before rfl rfl
    · obtain ⟨c', after, rfl, hc'⟩ := h.of_not_mark hc
      exact bracketPairs_of_not_mark hc'
  | case4 =>
    rw [h.eq_nil]
    rfl

theorem dropBlanks (h : Reshaped cs cs') :
    Reshaped (cs.dropWhile Text.isBlank) (cs'.dropWhile Text.isBlank) := by
  induction h with
  | nil => exact .nil
  | same c h ih =>
    rw [List.dropWhile_cons, List.dropWhile_cons]
    split
    · exact ih
    · exact .same c h
  | @name w w' rest rest' hw hw' h _ =>
    have hstop : ∀ {w : List Char}, IsPlain w → ∀ rest : List Char,
        (w ++ rest).dropWhile Text.isBlank = w ++ rest := by
      intro w hw rest
      cases w with
      | nil => exact (hw.ne_nil rfl).elim
      | cons c w =>
        rw [List.cons_append, List.dropWhile_cons, not_isBlank (hw.separates_eq_false List.mem_cons_self),
          if_neg Bool.false_ne_true]
    rw [hstop hw, hstop hw']
    exact .name hw hw' h

theorem arrayLevels (h : Reshaped cs cs') : TypeRef.arrayLevels cs' = TypeRef.arrayLevels cs := by
  have hd := h.dropBlanks
  have hdot : IsMark '.' := .inr rfl
  unfold TypeRef.arrayLevels
  generalize cs.dropWhile Text.isBlank = ds at hd
  generalize cs'.dropWhile Text.isBlank = ds' at hd
  have hdots : ∀ {ds ds' rest : List Char}, Reshaped ds ds' → ds = '.' :: '.' :: '.' :: rest →
      ∃ rest', ds' = '.' :: '.' :: '.' :: rest' ∧ Reshaped rest rest' := by
    rintro ds ds' rest h rfl
    obtain ⟨ds₁, rfl, h₁⟩ := h.of_mark hdot
    obtain ⟨ds₂, rfl, h₂⟩ := h₁.of_mark hdot
    obtain ⟨ds₃, rfl, h₃⟩ := h₂.of_mark hdot
    exact ⟨ds₃, rfl, h₃⟩
  split
  · next rest' =>
    obtain ⟨rest, rfl, hrest⟩ := hdots hd.symm rfl
    exact congrArg (· + 1) hrest.symm.bracketPairs
  · next hno =>
    split
    · next rest =>
      obtain ⟨rest', rfl, _⟩ := hdots hd rfl
      exact (hno rest' rfl).elim
    · exact hd.bracketPairs

end Reshaped

/-- Names that are replaced are plain, and so are those that replace them. -/
def Plainly (R : String → String → Prop) : Prop :=
  ∀ n n', R n n' → n = n' ∨ IsPlain n.toList ∧ IsPlain n'.toList

theorem Respelled.reshaped (h : Respelled R cs cs') (hR : Plainly R) : Reshaped cs cs' := by
  induction h with
  | nil => exact .nil
  | mark _ _ ih => exact .same _ ih
  | @name w w' rest rest' _ _ hname _ _ _ ih =>
    rcases hR _ _ hname with heq | ⟨hw, hw'⟩
    · rw [String.ofList_injective heq]
      exact (Reshaped.refl w').append ih
    · rw [String.toList_ofList] at hw hw'
      exact .name hw hw' ih

/-! ## Respelled types -/

/-- The second type is the first one with names replaced, where `R` tells which names stand for which. -/
def RespelledAs (R : String → String → Prop) (a b : TypeRef) : Prop :=
  List.Forall₂ (Piece.Stands R) (pieces a.text.toList) (pieces b.text.toList)

namespace RespelledAs

variable {a b : TypeRef}

theorem respelled (h : a.RespelledAs R b) : Respelled R a.text.toList b.text.toList :=
  respelled_of_pieces h rfl rfl

/-- A respelled type has as many array levels. -/
theorem arrayDimensions (h : a.RespelledAs R b) (hR : Plainly R) : b.arrayDimensions = a.arrayDimensions :=
  ((h.respelled.reshaped hR).dropGenerics 0).reverse.arrayLevels

/-- A base name that is plain is replaced by the name that stands for it. -/
theorem baseName (h : a.RespelledAs R b) (ha : IsPlain a.baseName.toList) : R a.baseName b.baseName := by
  rw [TypeRef.baseName, String.toList_ofList] at ha
  exact h.respelled.baseChars.of_plain ha

/-- The name that stands for a plain base name is the new base name. -/
theorem baseName_of_plain (h : a.RespelledAs R b) (hb : IsPlain b.baseName.toList) : R a.baseName b.baseName := by
  rw [TypeRef.baseName, String.toList_ofList] at hb
  exact h.respelled.symm.baseChars.of_plain hb

end RespelledAs

end ApiSurface.TypeRef
