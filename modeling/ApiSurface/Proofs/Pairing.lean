import ApiSurface.Comparison
import ApiSurface.Proofs.Signature

/-! # Pairing of methods

The greedy pairing loses and duplicates nothing, whatever the order of the methods and although the
loose test of signatures is not transitive: every method of either side occurs in one pairing, partners
match, and no two methods stay alone that match each other. -/
namespace ApiSurface.Comparison

/-! ## The order of keys -/

theorem order_eq_compareLex : MethodKey.order =
    compareLex (compareOn MethodKey.name) (compareLex (compareOn MethodKey.arity)
      (compareLex (compareOn MethodKey.erased) (compareOn MethodKey.literal))) := rfl

/-- The order in which the methods of one class are walked: by key, and by declaration for equal
keys. -/
def walkOrder (a b : Keyed) : Ordering :=
  (a.key.order b.key).then (compare a.decl.item.rank b.decl.item.rank)

instance : Std.TransCmp MethodKey.order := by
  rw [order_eq_compareLex]
  infer_instance

instance : Std.TransCmp walkOrder := by
  have h : walkOrder = compareLex (fun a b : Keyed => MethodKey.order a.key b.key)
      (compareOn fun a : Keyed => a.decl.item.rank) := rfl
  have hkey : Std.TransCmp fun a b : Keyed => MethodKey.order a.key b.key :=
    { eq_swap := Std.OrientedCmp.eq_swap, isLE_trans := Std.TransCmp.isLE_trans }
  rw [h]
  infer_instance

theorem walkOrder_trans (a b c : Keyed) (hab : (walkOrder a b).isLE = true)
    (hbc : (walkOrder b c).isLE = true) : (walkOrder a c).isLE = true :=
  Std.TransCmp.isLE_trans hab hbc

/-- Of two things one is not after the other. -/
theorem isLE_total {α : Type} {cmp : α → α → Ordering} [Std.OrientedCmp cmp] (a b : α) :
    ((cmp a b).isLE || (cmp b a).isLE) = true := by
  have h : cmp b a = (cmp a b).swap := Std.OrientedCmp.eq_swap
  rw [h]
  cases cmp a b <;> rfl

theorem walkOrder_total (a b : Keyed) :
    ((walkOrder a b).isLE || (walkOrder b a).isLE) = true := isLE_total a b

def keyed (d : Decl) : Keyed := { key := .ofDecl d, decl := d }

theorem sortedByKey_eq (ds : List Decl) :
    sortedByKey ds = (ds.map keyed).mergeSort fun a b => (walkOrder a b).isLE := rfl

theorem map_decl_sortedByKey_perm (ds : List Decl) :
    ((sortedByKey ds).map Keyed.decl).Perm ds := by
  have h := ((ds.map keyed).mergeSort_perm fun a b => (walkOrder a b).isLE).map Keyed.decl
  rw [List.map_map] at h
  have hid : Keyed.decl ∘ keyed = id := rfl
  rwa [hid, List.map_id] at h

theorem mem_sortedByKey {ds : List Decl} {k : Keyed} (h : k ∈ sortedByKey ds) :
    k.decl ∈ ds ∧ k = keyed k.decl := by
  obtain ⟨d, hd, rfl⟩ := List.mem_map.mp (List.mem_mergeSort.mp h)
  exact ⟨hd, rfl⟩

theorem mem_map_decl_sortedByKey {ds : List Decl} {d : Decl} :
    d ∈ (sortedByKey ds).map Keyed.decl ↔ d ∈ ds :=
  (map_decl_sortedByKey_perm ds).mem_iff

theorem order_self (key : MethodKey) : key.order key = .eq := Std.ReflCmp.compare_self

/-- Keys that the order does not tell apart are the same. -/
theorem eq_of_order_eq {a b : MethodKey} (h : a.order b = .eq) : a = b := by
  unfold MethodKey.order at h
  simp only [Ordering.then_eq_eq, Std.LawfulEqCmp.compare_eq_iff_eq] at h
  obtain ⟨hname, harity, herased, hliteral⟩ := h
  cases a
  cases b
  cases hname
  cases harity
  cases herased
  cases hliteral
  rfl

/-- Methods with one key match each other. -/
theorem signatureMatches_of_key {a b : Decl} (ha : a.asMethod?.isSome) (hb : b.asMethod?.isSome)
    (h : MethodKey.ofDecl a = .ofDecl b) : a.signatureMatches b = true := by
  obtain ⟨m, hm⟩ := Option.isSome_iff_exists.mp ha
  obtain ⟨n, hn⟩ := Option.isSome_iff_exists.mp hb
  have hname : a.name = b.name := congrArg MethodKey.name h
  have htext : a.parameterTypes.map (·.text) = b.parameterTypes.map (·.text) :=
    congrArg MethodKey.literal h
  have htypes : a.parameterTypes = b.parameterTypes :=
    List.map_injective_iff.mpr (fun s t hst => by cases s; cases t; exact congrArg _ hst) htext
  simp only [Decl.signatureMatches, hm, hn, htypes, beq_self_eq_true, Bool.and_true, Bool.and_eq_true,
    beq_iff_eq, List.all_eq_true]
  refine ⟨?_, ?_⟩
  · rw [Decl.asMethod?_name hm, Decl.asMethod?_name hn, hname]
  · rintro ⟨s, t⟩ hst
    obtain ⟨i, hi, he⟩ := List.mem_iff_getElem.mp hst
    rw [List.getElem_zip] at he
    cases he
    simp [Decl.parameterAgrees]

/-- No method stands before one with a smaller key once they are sorted. -/
theorem pairwise_order_ne_gt (ds : List Decl) :
    (sortedByKey ds).Pairwise fun a b => a.key.order b.key ≠ .gt := by
  rw [sortedByKey_eq]
  refine (List.pairwise_mergeSort walkOrder_trans walkOrder_total _).imp fun {a b} hle hgt => ?_
  unfold walkOrder at hle
  rw [hgt] at hle
  cases hle

/-- Methods with different keys stand in strict order once they are sorted. -/
theorem pairwise_order_lt {ds : List Decl} (hkeys : ds.Pairwise fun a b =>
    MethodKey.ofDecl a ≠ .ofDecl b) : (sortedByKey ds).Pairwise fun a b => a.key.order b.key = .lt := by
  have hdecls : ((sortedByKey ds).map Keyed.decl).Pairwise fun a b =>
      MethodKey.ofDecl a ≠ .ofDecl b :=
    hkeys.perm (map_decl_sortedByKey_perm ds).symm Ne.symm
  refine ((pairwise_order_ne_gt ds).and (List.pairwise_map.mp hdecls)).imp_of_mem ?_
  rintro a b ha hb ⟨hle, hne⟩
  cases horder : a.key.order b.key with
  | lt => rfl
  | gt => exact (hle horder).elim
  | eq =>
    have hkey := eq_of_order_eq horder
    rw [(mem_sortedByKey ha).2, (mem_sortedByKey hb).2] at hkey
    exact (hne hkey).elim

/-- Methods of which no two match stand in strict order once they are sorted. -/
theorem pairwise_sortedByKey {ds : List Decl} (hmethods : ∀ d ∈ ds, d.asMethod?.isSome)
    (hapart : ds.Pairwise fun a b => a.signatureMatches b = false) :
    (sortedByKey ds).Pairwise fun a b => a.key.order b.key = .lt := by
  refine pairwise_order_lt (hapart.imp_of_mem fun {a b} ha hb hno hkey => ?_)
  rw [signatureMatches_of_key (hmethods a ha) (hmethods b hb) hkey] at hno
  cases hno

/-- A list that changes once from failing a test to passing it is cut there by the test. -/
theorem filter_cut {α : Type} {p : α → Bool} {front back : List α} (hf : ∀ b ∈ front, (!p b) = true)
    (hb : ∀ b ∈ back, p b = true) :
    (front ++ back).filter (fun b => !p b) = front ∧ (front ++ back).filter p = back := by
  have hf' : ∀ b ∈ front, ¬p b = true := fun b h => by simpa using hf b h
  have hb' : ∀ b ∈ back, ¬(!p b) = true := fun b h => by simpa using hb b h
  rw [List.filter_append, List.filter_append, List.filter_eq_self.mpr hf,
    List.filter_eq_nil_iff.mpr hb', List.filter_eq_nil_iff.mpr hf', List.filter_eq_self.mpr hb]
  exact ⟨List.append_nil _, rfl⟩

/-- Sorting commutes with selecting, because the order is total and sorting is stable. -/
theorem mergeSort_filter {α : Type} {le : α → α → Bool}
    (trans : ∀ a b c, le a b = true → le b c = true → le a c = true)
    (total : ∀ a b, (le a b || le b a) = true) (p : α → Bool) (l : List α) :
    (l.filter p).mergeSort le = (l.mergeSort le).filter p := by
  induction l with
  | nil => simp
  | cons a rest ih =>
    obtain ⟨front, back, hsort, hrest, hfront⟩ := List.mergeSort_cons trans total a rest
    rw [hsort, List.filter_append, List.filter_cons, List.filter_cons]
    split
    · obtain ⟨front', back', hsort', hrest', hfront'⟩ :=
        List.mergeSort_cons trans total a (rest.filter p)
      have hback : ∀ b ∈ back, le a b = true := by
        have hp := List.pairwise_mergeSort trans total (a :: rest)
        rw [hsort, List.pairwise_append] at hp
        exact (List.pairwise_cons.mp hp.2.1).1
      have hback' : ∀ b ∈ back', le a b = true := by
        have hp := List.pairwise_mergeSort trans total (a :: rest.filter p)
        rw [hsort', List.pairwise_append] at hp
        exact (List.pairwise_cons.mp hp.2.1).1
      -- Both splits are at the first element that is not below `a`.
      have heq : front' ++ back' = front.filter p ++ back.filter p := by
        rw [← hrest', ih, hrest, List.filter_append]
      have hcut := filter_cut hfront' hback'
      have hcut' : _ ∧ (front.filter p ++ back.filter p).filter (le a) = back.filter p :=
        filter_cut (fun b hb => hfront b (List.mem_of_mem_filter hb))
          (fun b hb => hback b (List.mem_of_mem_filter hb))
      rw [heq] at hcut
      rw [hsort', ← hcut.1, hcut'.1, ← hcut.2, hcut'.2]
    · rw [ih, hrest, List.filter_append]

/-- A sorted list is in order, and what the order does not tell apart stands as it stood before. -/
theorem pairwise_mergeSort_stable {α : Type} {le : α → α → Bool} {R : α → α → Prop} {l : List α}
    (trans : ∀ a b c, le a b = true → le b c = true → le a c = true)
    (total : ∀ a b, (le a b || le b a) = true) (h : l.Pairwise R) :
    (l.mergeSort le).Pairwise fun a b => le a b = true ∧ (le b a = true → R a b) := by
  have hsorted : ∀ {a b}, [a, b].Sublist (l.mergeSort le) → le a b = true :=
    fun hab => List.pairwise_iff_forall_sublist.mp (List.pairwise_mergeSort trans total l) hab
  refine List.pairwise_iff_forall_sublist.mpr fun {a b} hab => ⟨hsorted hab, fun hba => ?_⟩
  have hself : ∀ x, le x x = true := fun x => by simpa using total x x
  -- Among what ties with `a`, everything is in order from the start, so sorting does not touch it.
  let tie := fun x => le x a && le a x
  have htie : (l.mergeSort le).filter tie = l.filter tie := by
    rw [← mergeSort_filter trans total]
    refine List.mergeSort_of_pairwise (List.pairwise_iff_forall_sublist.mpr fun {x y} hxy => ?_)
    have hx : tie x = true := (List.mem_filter.mp (hxy.subset List.mem_cons_self)).2
    have hy : tie y = true :=
      (List.mem_filter.mp (hxy.subset (List.mem_cons_of_mem x List.mem_cons_self))).2
    simp only [tie, Bool.and_eq_true] at hx hy
    exact trans x a y hx.1 hy.2
  have hkept : [a, b].filter tie = [a, b] := by
    simp [tie, hself a, hba, hsorted hab]
  have hsub := hab.filter tie
  rw [hkept, htie] at hsub
  exact List.pairwise_iff_forall_sublist.mp h (hsub.trans List.filter_sublist)

theorem sortedByKey_filter (ds : List Decl) (p : Decl → Bool) :
    sortedByKey (ds.filter p) = (sortedByKey ds).filter fun k => p k.decl := by
  rw [sortedByKey_eq, sortedByKey_eq, ← mergeSort_filter walkOrder_trans walkOrder_total,
    List.filter_map]
  rfl

/-! ## What a pairing is made of -/

namespace Pairing

def old? : Pairing → Option Decl
  | .both old _ | .oldOnly old => some old
  | .newOnly _ => none

def new? : Pairing → Option Decl
  | .both _ new | .newOnly new => some new
  | .oldOnly _ => none

/-- The method that a pairing is about: the old one, or the new one that stays alone. -/
def subject : Pairing → Decl
  | .both old _ | .oldOnly old => old
  | .newOnly new => new

end Pairing

/-- What a search finds splits the list, and erasing it joins the parts again. -/
theorem eraseP_of_find? {α : Type} {p : α → Bool} {l : List α} {n : α} (h : l.find? p = some n) :
    ∃ front back, l = front ++ n :: back ∧ l.eraseP p = front ++ back := by
  obtain ⟨hn, front, back, rfl, hfront⟩ := List.find?_eq_some_iff_append.mp h
  have hno : ∀ m ∈ front, ¬p m = true := fun m hm => by simpa using hfront m hm
  refine ⟨front, back, rfl, ?_⟩
  rw [List.eraseP_append_right _ hno, List.eraseP_cons_of_pos hn]

section Cases

theorem pairUp_nil (new : List Keyed) :
    pairUp [] new = new.map fun n => (n.key, .newOnly n.decl) := rfl

theorem pairUp_cons (o : Keyed) (old new : List Keyed) : pairUp (o :: old) new =
    match new.find? fun n => o.decl.signatureMatches n.decl with
    | some n => (o.key, .both o.decl n.decl) ::
        pairUp old (new.eraseP fun n => o.decl.signatureMatches n.decl)
    | none => (o.key, .oldOnly o.decl) :: pairUp old new := rfl

variable {o n : Keyed} {old new : List Keyed}

theorem pairUp_cons_some (h : (new.find? fun n => o.decl.signatureMatches n.decl) = some n) :
    pairUp (o :: old) new = (o.key, .both o.decl n.decl) ::
      pairUp old (new.eraseP fun n => o.decl.signatureMatches n.decl) := by
  rw [pairUp_cons, h]

theorem pairUp_cons_none (h : (new.find? fun n => o.decl.signatureMatches n.decl) = none) :
    pairUp (o :: old) new = (o.key, .oldOnly o.decl) :: pairUp old new := by
  rw [pairUp_cons, h]

end Cases

/-- The old methods occur in the pairings once each and in their order. -/
theorem filterMap_old?_pairUp (old new : List Keyed) :
    (pairUp old new).filterMap (fun p => p.2.old?) = old.map Keyed.decl := by
  induction old generalizing new with
  | nil =>
    rw [pairUp_nil, List.filterMap_map]
    exact List.filterMap_eq_nil_iff.mpr fun _ _ => rfl
  | cons o old ih =>
    cases h : new.find? fun n => o.decl.signatureMatches n.decl with
    | none =>
      rw [pairUp_cons_none h, List.filterMap_cons, ih]
      rfl
    | some n =>
      rw [pairUp_cons_some h, List.filterMap_cons, ih]
      rfl

/-- The new methods occur in the pairings once each. -/
theorem filterMap_new?_pairUp (old new : List Keyed) :
    ((pairUp old new).filterMap fun p => p.2.new?).Perm (new.map Keyed.decl) := by
  induction old generalizing new with
  | nil =>
    rw [pairUp_nil, List.filterMap_map]
    have h : (fun p : MethodKey × Pairing => p.2.new?) ∘ (fun n : Keyed =>
        (n.key, Pairing.newOnly n.decl)) = some ∘ Keyed.decl := rfl
    rw [h, List.filterMap_eq_map]
  | cons o old ih =>
    cases h : new.find? fun n => o.decl.signatureMatches n.decl with
    | none =>
      rw [pairUp_cons_none h, List.filterMap_cons]
      exact ih new
    | some n =>
      obtain ⟨front, back, rfl, herase⟩ := eraseP_of_find? h
      have hrest := ih (front ++ back)
      rw [pairUp_cons_some h, List.filterMap_cons, herase]
      refine (hrest.cons n.decl).trans ?_
      rw [List.map_append, List.map_append, List.map_cons]
      exact List.perm_middle.symm

theorem signatureMatches_of_mem_pairUp {old new : List Keyed} {key : MethodKey} {o n : Decl}
    (h : (key, Pairing.both o n) ∈ pairUp old new) : o.signatureMatches n = true := by
  induction old generalizing new with
  | nil =>
    rw [pairUp_nil] at h
    obtain ⟨_, _, he⟩ := List.mem_map.mp h
    cases he
  | cons first old ih =>
    cases hf : new.find? fun n => first.decl.signatureMatches n.decl with
    | none =>
      rw [pairUp_cons_none hf] at h
      rcases List.mem_cons.mp h with he | h
      · cases he
      · exact ih h
    | some found =>
      rw [pairUp_cons_some hf] at h
      rcases List.mem_cons.mp h with he | h
      · cases he
        have hfound := List.find?_some hf
        exact hfound
      · exact ih h

theorem mem_of_old?_pairUp {old new : List Keyed} {p : MethodKey × Pairing} {o : Decl}
    (h : p ∈ pairUp old new) (ho : p.2.old? = some o) : o ∈ old.map Keyed.decl := by
  rw [← filterMap_old?_pairUp old new]
  exact List.mem_filterMap.mpr ⟨p, h, ho⟩

theorem mem_of_new?_pairUp {old new : List Keyed} {p : MethodKey × Pairing} {n : Decl}
    (h : p ∈ pairUp old new) (hn : p.2.new? = some n) : n ∈ new.map Keyed.decl := by
  rw [← (filterMap_new?_pairUp old new).mem_iff]
  exact List.mem_filterMap.mpr ⟨p, h, hn⟩

/-- Every pairing takes its methods from the two sides, and partners match. -/
theorem mem_pairUp {old new : List Keyed} {key : MethodKey} {pairing : Pairing}
    (h : (key, pairing) ∈ pairUp old new) :
    match pairing with
    | .both o n => o ∈ old.map Keyed.decl ∧ n ∈ new.map Keyed.decl ∧ o.signatureMatches n = true
    | .oldOnly o => o ∈ old.map Keyed.decl
    | .newOnly n => n ∈ new.map Keyed.decl := by
  cases pairing with
  | both o n =>
    exact ⟨mem_of_old?_pairUp h rfl, mem_of_new?_pairUp h rfl, signatureMatches_of_mem_pairUp h⟩
  | oldOnly o => exact mem_of_old?_pairUp h rfl
  | newOnly n => exact mem_of_new?_pairUp h rfl

/-- A pairing has the key of the method that it is about. -/
theorem key_of_mem_pairUp {old new : List Keyed} (hold : ∀ k ∈ old, k = keyed k.decl)
    (hnew : ∀ k ∈ new, k = keyed k.decl) {p : MethodKey × Pairing} (h : p ∈ pairUp old new) :
    p.1 = .ofDecl p.2.subject := by
  induction old generalizing new with
  | nil =>
    rw [pairUp_nil] at h
    obtain ⟨n, hn, rfl⟩ := List.mem_map.mp h
    exact congrArg Keyed.key (hnew n hn)
  | cons first old ih =>
    obtain ⟨hfirst, hold⟩ := List.forall_mem_cons.mp hold
    cases hf : new.find? fun n => first.decl.signatureMatches n.decl with
    | none =>
      rw [pairUp_cons_none hf] at h
      rcases List.mem_cons.mp h with rfl | h
      · exact congrArg Keyed.key hfirst
      · exact ih hold hnew h
    | some found =>
      rw [pairUp_cons_some hf] at h
      rcases List.mem_cons.mp h with rfl | h
      · exact congrArg Keyed.key hfirst
      · exact ih hold (fun k hk => hnew k (List.mem_of_mem_eraseP hk)) h

/-- The new methods that nobody takes come last. -/
theorem pairwise_old?_pairUp (old new : List Keyed) :
    (pairUp old new).Pairwise fun p q => p.2.old? = none → q.2.old? = none := by
  induction old generalizing new with
  | nil =>
    rw [pairUp_nil]
    exact List.pairwise_map.mpr (List.pairwise_of_forall fun _ _ _ => rfl)
  | cons first old ih =>
    cases hf : new.find? fun n => first.decl.signatureMatches n.decl with
    | none =>
      rw [pairUp_cons_none hf]
      exact List.pairwise_cons.mpr ⟨fun _ _ h => (nomatch h), ih new⟩
    | some found =>
      rw [pairUp_cons_some hf]
      exact List.pairwise_cons.mpr ⟨fun _ _ h => (nomatch h), ih _⟩

/-- No two methods stay alone that match each other. -/
theorem pairUp_maximal {old new : List Keyed} {key key' : MethodKey} {o n : Decl}
    (ho : (key, Pairing.oldOnly o) ∈ pairUp old new)
    (hn : (key', Pairing.newOnly n) ∈ pairUp old new) : o.signatureMatches n = false := by
  induction old generalizing new with
  | nil =>
    rw [pairUp_nil] at ho
    obtain ⟨_, _, he⟩ := List.mem_map.mp ho
    cases he
  | cons first old ih =>
    cases hf : new.find? fun n => first.decl.signatureMatches n.decl with
    | some found =>
      rw [pairUp_cons_some hf] at ho hn
      rcases List.mem_cons.mp ho with he | ho
      · cases he
      · rcases List.mem_cons.mp hn with he | hn
        · cases he
        · exact ih ho hn
    | none =>
      rw [pairUp_cons_none hf] at ho hn
      rcases List.mem_cons.mp hn with he | hn
      · cases he
      · rcases List.mem_cons.mp ho with he | ho
        · cases he
          -- `n` was still there when `o` was passed over.
          obtain ⟨n', hn', rfl⟩ := List.mem_map.mp (mem_pairUp hn)
          simpa using List.find?_eq_none.mp hf n' hn'
        · exact ih ho hn

/-- Every old method is paired or stays alone. -/
theorem exists_old_pairUp {old : List Keyed} (new : List Keyed) {o : Decl}
    (h : o ∈ old.map Keyed.decl) :
    ∃ key, (∃ n, (key, Pairing.both o n) ∈ pairUp old new) ∨
      (key, Pairing.oldOnly o) ∈ pairUp old new := by
  rw [← filterMap_old?_pairUp old new] at h
  obtain ⟨⟨key, pairing⟩, hp, ho⟩ := List.mem_filterMap.mp h
  cases pairing with
  | both o' n => cases ho; exact ⟨key, .inl ⟨n, hp⟩⟩
  | oldOnly o' => cases ho; exact ⟨key, .inr hp⟩
  | newOnly n => cases ho

/-- Every new method is paired or stays alone. -/
theorem exists_new_pairUp (old : List Keyed) {new : List Keyed} {n : Decl}
    (h : n ∈ new.map Keyed.decl) :
    ∃ key, (∃ o, (key, Pairing.both o n) ∈ pairUp old new) ∨
      (key, Pairing.newOnly n) ∈ pairUp old new := by
  rw [← (filterMap_new?_pairUp old new).mem_iff] at h
  obtain ⟨⟨key, pairing⟩, hp, hn⟩ := List.mem_filterMap.mp h
  cases pairing with
  | both o n' => cases hn; exact ⟨key, .inl ⟨o, hp⟩⟩
  | oldOnly o => cases hn
  | newOnly n' => cases hn; exact ⟨key, .inr hp⟩

end ApiSurface.Comparison
