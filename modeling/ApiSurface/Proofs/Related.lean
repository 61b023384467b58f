import Mathlib.Data.List.Forall2
import Mathlib.Data.List.Perm.Basic
import Mathlib.Data.Option.Defs

/-! # Related lists

Two runs that meet the same things in other places are compared by a relation between what the one meets
and what the other meets. Here is what the common operations on options and lists make of related
arguments: lists that are related entry by entry, and lists that are so after one of them is put in
another order. -/
namespace ApiSurface

variable {α β γ δ : Type} {R : α → β → Prop} {S : γ → δ → Prop}

/-! ## Options -/

section Options

variable {o p : Option α} {o' p' : Option β}

/-- What is related to something is something. -/
theorem exists_of_rel_some {a : α} (h : Option.Rel R (some a) o') : ∃ b, o' = some b ∧ R a b := by
  cases h with
  | some h => exact ⟨_, rfl, h⟩

/-- Related options are both empty, or both hold something. -/
theorem rel_cases (h : Option.Rel R o o') :
    (o = none ∧ o' = none) ∨ ∃ a b, o = some a ∧ o' = some b ∧ R a b := by
  cases h with
  | none => exact .inl ⟨rfl, rfl⟩
  | some h => exact .inr ⟨_, _, rfl, rfl, h⟩

theorem rel_imp {Q : α → β → Prop} (h : Option.Rel R o o') (himp : ∀ a b, R a b → Q a b) :
    Option.Rel Q o o' := by
  cases h with
  | none => exact .none
  | some h => exact .some (himp _ _ h)

theorem rel_of_map_eq {f : α → γ} {g : β → γ} (h : o'.map g = o.map f) :
    Option.Rel (fun a b => g b = f a) o o' := by
  cases o with
  | none =>
    rw [Option.map_eq_none_iff.mp h]
    exact .none
  | some a =>
    obtain ⟨b, rfl, hb⟩ := Option.map_eq_some_iff.mp h
    exact .some hb

theorem rel_getD (h : Option.Rel R o o') {a : α} {b : β} (hab : R a b) : R (o.getD a) (o'.getD b) := by
  cases h with
  | none => exact hab
  | some h => exact h

theorem isSome_of_rel (h : Option.Rel R o o') : o'.isSome = o.isSome := by
  cases h <;> rfl

theorem map_of_rel (h : Option.Rel R o o') {f : α → γ} {g : β → γ} (hf : ∀ a b, R a b → g b = f a) :
    o'.map g = o.map f := by
  cases h with
  | none => rfl
  | some h => exact congrArg some (hf _ _ h)

theorem bind_of_rel (h : Option.Rel R o o') {f : α → Option γ} {g : β → Option γ}
    (hf : ∀ a b, R a b → g b = f a) : o'.bind g = o.bind f := by
  cases h with
  | none => rfl
  | some h => exact hf _ _ h

theorem any_of_rel (h : Option.Rel R o o') {f : α → Bool} {g : β → Bool}
    (hf : ∀ a b, R a b → g b = f a) : o'.any g = o.any f := by
  cases h with
  | none => rfl
  | some h => exact hf _ _ h

theorem rel_map (h : Option.Rel R o o') {f : α → γ} {g : β → δ}
    (hf : ∀ a b, R a b → S (f a) (g b)) : Option.Rel S (o.map f) (o'.map g) := by
  cases h with
  | none => exact .none
  | some h => exact .some (hf _ _ h)

theorem rel_bind (h : Option.Rel R o o') {f : α → Option γ} {g : β → Option δ}
    (hf : ∀ a b, R a b → Option.Rel S (f a) (g b)) : Option.Rel S (o.bind f) (o'.bind g) := by
  cases h with
  | none => exact .none
  | some h => exact hf _ _ h

theorem rel_or (h : Option.Rel R o o') (h' : Option.Rel R p p') :
    Option.Rel R (o.or p) (o'.or p') := by
  cases h with
  | none => exact h'
  | some h => exact .some h

theorem rel_option_filter (h : Option.Rel R o o') {f : α → Bool} {g : β → Bool}
    (hf : ∀ a b, R a b → g b = f a) : Option.Rel R (o.filter f) (o'.filter g) := by
  cases h with
  | none => exact .none
  | some h =>
    rw [Option.filter_some, Option.filter_some, hf _ _ h]
    split
    · exact .some h
    · exact .none

end Options

/-! ## Lists that are related entry by entry -/

section Entries

variable {l : List α} {l' : List β}

theorem exists_forall₂ (h : ∀ a ∈ l, ∃ b, R a b) : ∃ l', List.Forall₂ R l l' := by
  induction l with
  | nil => exact ⟨[], .nil⟩
  | cons a rest ih =>
    obtain ⟨b, hb⟩ := h a List.mem_cons_self
    obtain ⟨bs, hbs⟩ := ih fun x hx => h x (List.mem_cons_of_mem _ hx)
    exact ⟨b :: bs, .cons hb hbs⟩

theorem exists_mem_right (h : List.Forall₂ R l l') {a : α} (ha : a ∈ l) : ∃ b ∈ l', R a b := by
  obtain ⟨i, hi, rfl⟩ := List.mem_iff_getElem.mp ha
  have hi' : i < l'.length := h.length_eq ▸ hi
  exact ⟨l'[i], List.getElem_mem hi', h.get hi hi'⟩

theorem exists_mem_left (h : List.Forall₂ R l l') {b : β} (hb : b ∈ l') : ∃ a ∈ l, R a b := by
  obtain ⟨i, hi, rfl⟩ := List.mem_iff_getElem.mp hb
  have hi' : i < l.length := h.length_eq ▸ hi
  exact ⟨l[i], List.getElem_mem hi', h.get hi' hi⟩

/-- Related lists are related as the lists that they are. -/
theorem forall₂_mem (h : List.Forall₂ R l l') :
    List.Forall₂ (fun a b => a ∈ l ∧ b ∈ l' ∧ R a b) l l' := by
  obtain ⟨hlength, hzip⟩ := List.forall₂_iff_zip.mp h
  refine List.forall₂_iff_zip.mpr ⟨hlength, fun hmem => ?_⟩
  obtain ⟨ha, hb⟩ := List.of_mem_zip hmem
  exact ⟨ha, hb, hzip hmem⟩

theorem isEmpty_of_forall₂ (h : List.Forall₂ R l l') : l'.isEmpty = l.isEmpty := by
  cases h <;> rfl

theorem map_of_forall₂ (h : List.Forall₂ R l l') {f : α → γ} {g : β → γ}
    (hf : ∀ a b, R a b → g b = f a) : l'.map g = l.map f := by
  induction h with
  | nil => rfl
  | cons hab _ ih => rw [List.map_cons, List.map_cons, hf _ _ hab, ih]

theorem flatMap_of_forall₂ (h : List.Forall₂ R l l') {f : α → List γ} {g : β → List γ}
    (hf : ∀ a b, R a b → g b = f a) : l'.flatMap g = l.flatMap f := by
  rw [List.flatMap_def, List.flatMap_def, map_of_forall₂ h hf]

theorem any_of_forall₂ (h : List.Forall₂ R l l') {f : α → Bool} {g : β → Bool}
    (hf : ∀ a b, R a b → g b = f a) : l'.any g = l.any f := by
  induction h with
  | nil => rfl
  | cons hab _ ih => rw [List.any_cons, List.any_cons, hf _ _ hab, ih]

theorem all_of_forall₂ (h : List.Forall₂ R l l') {f : α → Bool} {g : β → Bool}
    (hf : ∀ a b, R a b → g b = f a) : l'.all g = l.all f := by
  induction h with
  | nil => rfl
  | cons hab _ ih => rw [List.all_cons, List.all_cons, hf _ _ hab, ih]

theorem forall₂_flatMap_same {f : α → List γ} {g : α → List δ} (l : List α)
    (h : ∀ a, List.Forall₂ S (f a) (g a)) : List.Forall₂ S (l.flatMap f) (l.flatMap g) :=
  List.rel_flatMap (R := Eq) (List.forall₂_refl l) fun a _ hab => hab ▸ h a

theorem forall₂_filter (h : List.Forall₂ R l l') {f : α → Bool} {g : β → Bool}
    (hf : ∀ a b, R a b → g b = f a) : List.Forall₂ R (l.filter f) (l'.filter g) := by
  have hiff : ∀ a b, R a b → (f a = true ↔ g b = true) := fun a b hab => by rw [hf a b hab]
  exact List.rel_filter hiff h

theorem forall₂_tail (h : List.Forall₂ R l l') : List.Forall₂ R l.tail l'.tail := by
  cases h with
  | nil => exact .nil
  | cons _ h => exact h

theorem getLast?_rel (h : List.Forall₂ R l l') : Option.Rel R l.getLast? l'.getLast? := by
  have hhead : ∀ {k : List α} {k' : List β}, List.Forall₂ R k k' → Option.Rel R k.head? k'.head? := by
    intro k k' hk
    cases hk with
    | nil => exact .none
    | cons hab _ => exact .some hab
  rw [List.getLast?_eq_head?_reverse, List.getLast?_eq_head?_reverse]
  exact hhead (List.rel_reverse h)

theorem forall₂_takeWhile (h : List.Forall₂ R l l') {f : α → Bool} {g : β → Bool}
    (hf : ∀ a b, R a b → g b = f a) : List.Forall₂ R (l.takeWhile f) (l'.takeWhile g) := by
  induction h with
  | nil => exact .nil
  | cons hab _ ih =>
    rw [List.takeWhile_cons, List.takeWhile_cons, hf _ _ hab]
    split
    · exact .cons hab ih
    · exact .nil

theorem forall₂_dropWhile (h : List.Forall₂ R l l') {f : α → Bool} {g : β → Bool}
    (hf : ∀ a b, R a b → g b = f a) : List.Forall₂ R (l.dropWhile f) (l'.dropWhile g) := by
  induction h with
  | nil => exact .nil
  | cons hab hrest ih =>
    rw [List.dropWhile_cons, List.dropWhile_cons, hf _ _ hab]
    split
    · exact ih
    · exact .cons hab hrest

theorem findSome?_rel (h : List.Forall₂ R l l') {f : α → Option γ} {g : β → Option δ}
    (hf : ∀ a b, R a b → Option.Rel S (f a) (g b)) :
    Option.Rel S (l.findSome? f) (l'.findSome? g) := by
  induction h with
  | nil => exact .none
  | @cons a b _ _ hab _ ih =>
    rw [List.findSome?_cons, List.findSome?_cons]
    rcases rel_cases (hf a b hab) with ⟨hfa, hgb⟩ | ⟨c, d, hfa, hgb, hcd⟩
    · rw [hfa, hgb]
      exact ih
    · rw [hfa, hgb]
      exact .some hcd

theorem find?_rel (h : List.Forall₂ R l l') {f : α → Bool} {g : β → Bool}
    (hf : ∀ a b, R a b → g b = f a) : Option.Rel R (l.find? f) (l'.find? g) := by
  induction h with
  | nil => exact .none
  | @cons a b _ _ hab _ ih =>
    rw [List.find?_cons, List.find?_cons, hf a b hab]
    cases f a with
    | true => exact .some hab
    | false => exact ih

theorem forall₂_eraseP (h : List.Forall₂ R l l') {f : α → Bool} {g : β → Bool}
    (hf : ∀ a b, R a b → g b = f a) : List.Forall₂ R (l.eraseP f) (l'.eraseP g) := by
  induction h with
  | nil => exact .nil
  | @cons a b _ _ hab hrest ih =>
    rw [List.eraseP_cons, List.eraseP_cons, hf a b hab]
    cases f a with
    | true => exact hrest
    | false => exact .cons hab ih

theorem forall₂_zip {m : List γ} {m' : List δ} (h : List.Forall₂ R l l') (h' : List.Forall₂ S m m') :
    List.Forall₂ (fun p q => R p.1 q.1 ∧ S p.2 q.2) (l.zip m) (l'.zip m') := by
  induction h generalizing m m' with
  | nil => exact .nil
  | cons hab _ ih =>
    cases h' with
    | nil => exact .nil
    | cons hcd h' => exact .cons ⟨hab, hcd⟩ (ih h')

/-- Sorting looks at the entries only by comparing them. -/
theorem forall₂_mergeSort (h : List.Forall₂ R l l') {le : α → α → Bool} {le' : β → β → Bool}
    (hle : ∀ a b, R a b → ∀ c d, R c d → le' b d = le a c) :
    List.Forall₂ R (l.mergeSort le) (l'.mergeSort le') := by
  obtain ⟨hlen, hzip⟩ := List.forall₂_iff_zip.mp h
  have hleft : (l.zip l').map Prod.fst = l := List.map_fst_zip (Nat.le_of_eq hlen)
  have hright : (l.zip l').map Prod.snd = l' := List.map_snd_zip (Nat.le_of_eq hlen.symm)
  -- Both sides are sorted along with the pairs of related entries.
  let order : α × β → α × β → Bool := fun p q => le p.1 q.1
  have hl : ((l.zip l').mergeSort order).map Prod.fst = l.mergeSort le := by
    rw [List.map_mergeSort (s := le) fun _ _ _ _ => rfl, hleft]
  have hr : ((l.zip l').mergeSort order).map Prod.snd = l'.mergeSort le' := by
    rw [List.map_mergeSort (s := le') fun p hp q hq => (hle _ _ (hzip hp) _ _ (hzip hq)).symm, hright]
  rw [← hl, ← hr, List.forall₂_map_left_iff, List.forall₂_map_right_iff, List.forall₂_same]
  exact fun p hp => hzip (List.mem_mergeSort.mp hp)

theorem nodup_eraseDups [BEq α] [LawfulBEq α] (l : List α) : l.eraseDups.Nodup := by
  induction hn : l.length using Nat.strongRecOn generalizing l with
  | _ n ih =>
    cases l with
    | nil => exact .nil
    | cons a rest =>
      rw [List.eraseDups_cons]
      refine List.nodup_cons.mpr ⟨fun h => ?_, ih _ ?_ _ rfl⟩
      · simp [List.mem_eraseDups, List.mem_filter] at h
      · rw [← hn]
        exact Nat.lt_succ_of_le (List.length_filter_le _ _)

theorem forall₂_eraseDups [BEq α] [LawfulBEq α] [BEq β] [LawfulBEq β]
    (hR : ∀ a b, R a b → ∀ c d, R c d → (d = b ↔ c = a)) (h : List.Forall₂ R l l') :
    List.Forall₂ R l.eraseDups l'.eraseDups := by
  induction hn : l.length using Nat.strongRecOn generalizing l l' with
  | _ n ih =>
    cases h with
    | nil => exact .nil
    | @cons a b rest rest' hab hrest =>
      have hfilter : List.Forall₂ R (rest.filter fun c => !c == a) (rest'.filter fun d => !d == b) :=
        forall₂_filter hrest fun c d hcd => by
          rw [Bool.eq_iff_iff]
          simp only [Bool.not_eq_true', beq_eq_false_iff_ne, ne_eq, hR a b hab c d hcd]
      rw [List.eraseDups_cons, List.eraseDups_cons]
      refine .cons hab (ih _ ?_ hfilter rfl)
      rw [← hn]
      exact Nat.lt_succ_of_le (List.length_filter_le _ _)

end Entries

/-! ## Lists that are related in some order -/

/-- The second list has the entries of the first one, each related to its own, in some order. -/
def Shuffled (R : α → β → Prop) (l : List α) (l' : List β) : Prop :=
  ∃ m, List.Forall₂ R l m ∧ m.Perm l'

namespace Shuffled

variable {l : List α} {l' : List β}

theorem of_forall₂ (h : List.Forall₂ R l l') : Shuffled R l l' := ⟨l', h, .refl _⟩

theorem exists_right (h : Shuffled R l l') {a : α} (ha : a ∈ l) : ∃ b ∈ l', R a b := by
  obtain ⟨m, hm, hperm⟩ := h
  obtain ⟨b, hb, hab⟩ := exists_mem_right hm ha
  exact ⟨b, hperm.mem_iff.mp hb, hab⟩

theorem exists_left (h : Shuffled R l l') {b : β} (hb : b ∈ l') : ∃ a ∈ l, R a b := by
  obtain ⟨m, hm, hperm⟩ := h
  exact exists_mem_left hm (hperm.mem_iff.mpr hb)

/-- What the relation keeps forms the same list in some order. -/
theorem map_perm (h : Shuffled R l l') {f : α → γ} {g : β → γ} (hf : ∀ a b, R a b → g b = f a) :
    (l.map f).Perm (l'.map g) := by
  obtain ⟨m, hm, hperm⟩ := h
  rw [← map_of_forall₂ hm hf]
  exact hperm.map g

theorem and_left (h : Shuffled R l l') {P : α → Prop} (hP : ∀ a ∈ l, P a) :
    Shuffled (fun a b => P a ∧ R a b) l l' := by
  obtain ⟨m, hm, hperm⟩ := h
  exact ⟨m, (List.forall₂_and_left l m).mpr ⟨hP, hm⟩, hperm⟩

theorem length_eq (h : Shuffled R l l') : l'.length = l.length := by
  obtain ⟨m, hm, hperm⟩ := h
  rw [← hperm.length_eq, hm.length_eq]

theorem any_eq (h : Shuffled R l l') {f : α → Bool} {g : β → Bool} (hf : ∀ a b, R a b → g b = f a) :
    l'.any g = l.any f := by
  obtain ⟨m, hm, hperm⟩ := h
  rw [← hperm.any_eq, any_of_forall₂ hm hf]

theorem filter (h : Shuffled R l l') {f : α → Bool} {g : β → Bool} (hf : ∀ a b, R a b → g b = f a) :
    Shuffled R (l.filter f) (l'.filter g) := by
  obtain ⟨m, hm, hperm⟩ := h
  exact ⟨m.filter g, forall₂_filter hm hf, hperm.filter g⟩

theorem perm_left (h : Shuffled R l l') {k : List α} (hk : k.Perm l) : Shuffled R k l' := by
  obtain ⟨m, hm, hperm⟩ := h
  obtain ⟨n, hn, hnm⟩ := List.perm_comp_forall₂ hk hm
  exact ⟨n, hn, hnm.trans hperm⟩

theorem perm_right (h : Shuffled R l l') {k : List β} (hk : l'.Perm k) : Shuffled R l k := by
  obtain ⟨m, hm, hperm⟩ := h
  exact ⟨m, hm, hperm.trans hk⟩

/-- Where there is one hit at most, the order does not matter for the first one. -/
theorem find? (h : Shuffled R l l') {f : α → Bool} {g : β → Bool} (hf : ∀ a b, R a b → g b = f a)
    (hone : ∀ a ∈ l', ∀ b ∈ l', g a = true → g b = true → a = b) :
    Option.Rel R (l.find? f) (l'.find? g) := by
  cases hl : l.find? f with
  | none =>
    have hnone : l'.find? g = none := by
      rw [List.find?_eq_none] at hl ⊢
      intro b hb
      obtain ⟨a, ha, hab⟩ := h.exists_left hb
      rw [hf a b hab]
      exact hl a ha
    rw [hnone]
    exact .none
  | some a =>
    obtain ⟨b, hb, hab⟩ := h.exists_right (List.mem_of_find?_eq_some hl)
    have hg : g b = true := by rw [hf a b hab, List.find?_some hl]
    obtain ⟨c, hc⟩ := Option.isSome_iff_exists.mp (List.find?_isSome.mpr ⟨b, hb, hg⟩)
    rw [hc, hone c (List.mem_of_find?_eq_some hc) b hb (List.find?_some hc) hg]
    exact .some hab

/-- Two lists that are both in order are related entry by entry. -/
theorem forall₂_of_pairwise (h : Shuffled R l l') {lt : α → α → Prop} {lt' : β → β → Prop}
    (hlt : ∀ a b, R a b → ∀ c d, R c d → lt a c → lt' b d) (hasymm : ∀ a b, lt' a b → ¬lt' b a)
    (hl : l.Pairwise lt) (hl' : l'.Pairwise lt') : List.Forall₂ R l l' := by
  obtain ⟨m, hm, hperm⟩ := h
  have hsorted : m.Pairwise lt' := by
    clear hperm hl'
    induction hm with
    | nil => exact .nil
    | cons hab hrest ih =>
      obtain ⟨hhead, htail⟩ := List.pairwise_cons.mp hl
      refine List.pairwise_cons.mpr ⟨fun d hd => ?_, ih htail⟩
      obtain ⟨c, hc, hcd⟩ := exists_mem_left hrest hd
      exact hlt _ _ hab _ _ hcd (hhead c hc)
  have heq : m = l' :=
    List.Perm.eq_of_pairwise (fun a b _ _ hab hba => absurd hba (hasymm a b hab)) hsorted hl' hperm
  exact heq ▸ hm

end Shuffled

end ApiSurface
