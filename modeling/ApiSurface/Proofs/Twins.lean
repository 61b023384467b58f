import ApiSurface.Proofs.Pairing
import ApiSurface.Proofs.RecastChecks
import ApiSurface.Proofs.Reload

/-! # Pairing with counterparts

The methods of a class are paired with the counterparts of those that a filter accepts. No counterpart
stays alone, and each goes to its own method unless a rejected method, which comes first and matches it
too, has taken it. -/
namespace ApiSurface.Comparison

variable {serial : Nat} {location : String}

def Keyed.reloaded (k : Keyed) (serial : Nat) (location : String) : Keyed :=
  { k with decl := k.decl.reloaded serial location }

theorem Keyed.recast_reload (k : Keyed) : k.recast (.reload serial location) = k.reloaded serial location := by
  unfold recast reloaded
  rw [Decl.recast_reload]

theorem sortedByKey_reloaded (ds : List Decl) :
    sortedByKey (ds.map (·.reloaded serial location)) =
      (sortedByKey ds).map (·.reloaded serial location) := by
  simpa only [Decl.recast_reload, Keyed.recast_reload] using
    sortedByKey_recast (.reload serial location) ds

theorem signatureMatches_counterpart (serial : Nat) (location : String) {o : Keyed}
    (h : o.decl.asMethod?.isSome) :
    o.decl.signatureMatches (o.reloaded serial location).decl = true := by
  change o.decl.signatureMatches (o.decl.reloaded serial location) = true
  rw [Decl.signatureMatches_reloaded_right]
  exact Decl.signatureMatches_self h

/-! ## Methods -/

section Methods

variable {o n : Keyed} {old new : List Keyed} {accept : Decl → Bool}

/-- What is left for the rest of the methods are counterparts of the rest. -/
theorem sublist_eraseP (ho : o.decl.asMethod?.isSome)
    (h : new.Sublist ((o :: old).map (·.reloaded serial location))) :
    (new.eraseP fun n => o.decl.signatureMatches n.decl).Sublist
      (old.map (·.reloaded serial location)) := by
  have hself := signatureMatches_counterpart serial location ho
  cases h with
  | cons _ h => exact List.eraseP_sublist.trans h
  | cons_cons _ h =>
    rw [List.eraseP_cons_of_pos (by exact hself)]
    exact h

/-- No counterpart stays alone. -/
theorem not_mem_pairUp_newOnly (hmethod : ∀ k ∈ old, k.decl.asMethod?.isSome)
    (h : new.Sublist (old.map (·.reloaded serial location))) (key : MethodKey) (n : Decl) :
    (key, Pairing.newOnly n) ∉ pairUp old new := by
  induction old generalizing new with
  | nil =>
    rw [List.map_nil, List.sublist_nil] at h
    subst h
    exact List.not_mem_nil
  | cons o old ih =>
    intro hmem
    have hrest := sublist_eraseP (hmethod o List.mem_cons_self) h
    have ih := ih (fun k hk => hmethod k (List.mem_cons_of_mem o hk)) hrest
    cases hf : new.find? fun n => o.decl.signatureMatches n.decl with
    | some found =>
      rw [pairUp_cons_some hf] at hmem
      rcases List.mem_cons.mp hmem with he | hmem
      · cases he
      · exact ih hmem
    | none =>
      rw [List.eraseP_of_forall_not (by simpa using hf)] at ih
      rw [pairUp_cons_none hf] at hmem
      rcases List.mem_cons.mp hmem with he | hmem
      · cases he
      · exact ih hmem

/-- If no rejected method matches an accepted one that comes later, all partners are counterparts. -/
theorem eq_reloaded_of_both (hmethod : ∀ k ∈ old, k.decl.asMethod?.isSome)
    (h : old.Pairwise fun a b => accept a.decl = false → accept b.decl = true →
      a.decl.signatureMatches b.decl = false) {key : MethodKey} {o n : Decl}
    (hmem : (key, Pairing.both o n) ∈
      pairUp old ((old.filter fun k => accept k.decl).map (·.reloaded serial location))) :
    n = o.reloaded serial location := by
  induction old with
  | nil => cases hmem
  | cons first old ih =>
    obtain ⟨hfirst, hold⟩ := List.pairwise_cons.mp h
    have ih := ih (fun k hk => hmethod k (List.mem_cons_of_mem first hk)) hold
    cases ha : accept first.decl with
    | true =>
      -- The counterpart comes first among those that are left, so the search stops at it.
      have hself := signatureMatches_counterpart serial location (hmethod first List.mem_cons_self)
      rw [List.filter_cons_of_pos (by exact ha), List.map_cons,
        pairUp_cons_some (List.find?_cons_of_pos (by exact hself)),
        List.eraseP_cons_of_pos (by exact hself)] at hmem
      rcases List.mem_cons.mp hmem with he | hmem
      · cases he
        rfl
      · exact ih hmem
    | false =>
      rw [List.filter_cons_of_neg (by rw [ha]; exact Bool.false_ne_true)] at hmem
      have hnone : (((old.filter fun k => accept k.decl).map (·.reloaded serial location)).find?
          fun n => first.decl.signatureMatches n.decl) = none := by
        refine List.find?_eq_none.mpr fun n hn => ?_
        obtain ⟨k, hk, rfl⟩ := List.mem_map.mp hn
        obtain ⟨hk, haccept⟩ := List.mem_filter.mp hk
        change ¬first.decl.signatureMatches (k.decl.reloaded serial location) = true
        rw [Decl.signatureMatches_reloaded_right, hfirst k hk ha haccept]
        exact Bool.false_ne_true
      rw [pairUp_cons_none hnone] at hmem
      rcases List.mem_cons.mp hmem with he | hmem
      · cases he
      · exact ih hmem

end Methods

/-! ## Events -/

section Events

variable {newClass o n : Decl} {old : List Decl} {filter : Filter}

theorem filter_reloaded (hf : ∀ d : Decl, filter (d.reloaded serial location) = filter d)
    (ds : List Decl) : (ds.map (·.reloaded serial location)).filter filter =
      (ds.filter filter).map (·.reloaded serial location) := by
  rw [List.filter_map]
  exact congrArg _ (List.filter_congr fun d _ => hf d)

theorem sortedByKey_filter_reloaded
    (hf : ∀ d : Decl, filter (d.reloaded serial location) = filter d) :
    sortedByKey ((old.map (·.reloaded serial location)).filter filter) =
      ((sortedByKey old).filter fun k => filter k.decl).map (·.reloaded serial location) := by
  rw [filter_reloaded hf, sortedByKey_reloaded, sortedByKey_filter]

theorem mem_zip_self {α : Type} {l : List α} {a b : α} (h : (a, b) ∈ l.zip l) : a = b := by
  obtain ⟨i, hi, he⟩ := List.mem_iff_getElem.mp h
  rw [List.getElem_zip] at he
  cases he
  rfl

/-- Parameters of a method and its counterpart are paired with their counterparts. -/
theorem eq_reloaded_of_isParameterPair
    (h : (o, n) ∈ newClass.parameters.zip (newClass.reloaded serial location).parameters) :
    n = o.reloaded serial location := by
  rw [Decl.parameters_reloaded, List.zip_map_right] at h
  obtain ⟨⟨a, b⟩, hab, he⟩ := List.mem_map.mp h
  cases mem_zip_self hab
  cases he
  rfl

end Events

end ApiSurface.Comparison
