import ApiSurface.Comparison

/-! # Tables by name

What the tables of a surface and of a comparison answer, in terms of the lists they were made from. -/
namespace ApiSurface

/-! ## Values of a table -/

section Values

variable {α : Type} (t : Std.TreeMap String α)

theorem values_eq_map_toList : t.values = t.toList.map Prod.snd := by
  have h : t.values = t.foldr (fun _ v values => v :: values) [] := rfl
  rw [h, Std.TreeMap.foldr_eq_foldr_toList]
  induction t.toList with
  | nil => rfl
  | cons entry rest ih => rw [List.foldr_cons, ih, List.map_cons]

theorem mem_values {v : α} : v ∈ t.values ↔ ∃ name : String, t[name]? = some v := by
  rw [values_eq_map_toList]
  simp only [List.mem_map, Prod.exists, Std.TreeMap.mem_toList_iff_getElem?_eq_some,
    exists_eq_right]

end Values

namespace Comparison

/-! ## Tables of declarations -/

variable {ds : List Decl} {name : String}

theorem getElem?_firstByName (ds : List Decl) (name : String) :
    (firstByName ds)[name]? = ds.find? fun d => d.name == name := by
  have h : ∀ t : ByName, (ds.foldl (fun table d => table.insertIfNew d.name d) t)[name]? =
      t[name]?.or (ds.find? fun d => d.name == name) := by
    induction ds with
    | nil => intro t; simp
    | cons d rest ih =>
      intro t
      rw [List.foldl_cons, ih, Std.TreeMap.getElem?_insertIfNew]
      by_cases hn : d.name = name
      · subst hn
        rw [List.find?_cons_of_pos (by exact BEq.rfl)]
        cases ht : t[d.name]? with
        | none =>
          have hno : d.name ∉ t := by
            rw [Std.TreeMap.mem_iff_isSome_getElem?, ht]
            exact Bool.false_ne_true
          rw [if_pos ⟨Std.ReflCmp.compare_self, hno⟩]
          rfl
        | some e =>
          have hm : d.name ∈ t := by
            rw [Std.TreeMap.mem_iff_isSome_getElem?, ht]
            rfl
          rw [if_neg (fun hh => hh.2 hm)]
          rfl
      · rw [if_neg (fun hh => hn (Std.LawfulEqCmp.eq_of_compare hh.1)),
          List.find?_cons_of_neg (by simpa using hn)]
  exact (h ∅).trans (by simp)

theorem getElem?_lastByName (ds : List Decl) (name : String) :
    (lastByName ds)[name]? = ds.reverse.find? fun d => d.name == name := by
  have h : ∀ t : ByName, (ds.foldl (fun table d => table.insert d.name d) t)[name]? =
      (ds.reverse.find? fun d => d.name == name).or t[name]? := by
    induction ds with
    | nil => intro t; simp
    | cons d rest ih =>
      intro t
      rw [List.foldl_cons, ih, Std.TreeMap.getElem?_insert, List.reverse_cons, List.find?_append,
        Option.or_assoc]
      by_cases hn : d.name = name
      · subst hn
        rw [if_pos Std.ReflCmp.compare_self]
        simp
      · rw [if_neg (fun hh => hn (Std.LawfulEqCmp.eq_of_compare hh))]
        simp [hn]
  exact (h ∅).trans (by simp)

theorem firstByName_mem {d : Decl} (h : (firstByName ds)[name]? = some d) :
    d ∈ ds ∧ d.name = name := by
  rw [getElem?_firstByName] at h
  have hn := List.find?_some h
  exact ⟨List.mem_of_find?_eq_some h, eq_of_beq hn⟩

theorem lastByName_mem {d : Decl} (h : (lastByName ds)[name]? = some d) :
    d ∈ ds ∧ d.name = name := by
  rw [getElem?_lastByName] at h
  have hn := List.find?_some h
  exact ⟨List.mem_reverse.mp (List.mem_of_find?_eq_some h), eq_of_beq hn⟩

theorem mem_unionNames {a b : List String} : name ∈ unionNames a b ↔ name ∈ a ∨ name ∈ b := by
  unfold unionNames
  simp [Std.TreeSet.mem_toList, Std.TreeSet.mem_ofList]

theorem pairwise_unionNames (a b : List String) : (unionNames a b).Pairwise (· < ·) := by
  have h := (Std.TreeSet.ofList (a ++ b)).ordered_toList
  exact h.imp compareOfLessAndEq_eq_lt.mp

theorem nodup_unionNames (a b : List String) : (unionNames a b).Nodup :=
  (pairwise_unionNames a b).imp String.ne_of_lt

/-- The names of two tables depend on nothing but which ones there are. -/
theorem unionNames_congr {a b a' b' : List String} (ha : ∀ name, name ∈ a' ↔ name ∈ a)
    (hb : ∀ name, name ∈ b' ↔ name ∈ b) : unionNames a' b' = unionNames a b := by
  have hperm : (unionNames a' b').Perm (unionNames a b) := by
    refine (List.perm_ext_iff_of_nodup (nodup_unionNames _ _) (nodup_unionNames _ _)).mpr fun name => ?_
    rw [mem_unionNames, mem_unionNames, ha, hb]
  refine List.Perm.eq_of_pairwise (fun x y _ _ hxy hyx => ?_) Std.TreeSet.ordered_toList
    Std.TreeSet.ordered_toList hperm
  have hswap : Ord.compare y x = (Ord.compare x y).swap := Std.OrientedCmp.eq_swap
  rw [hswap, hxy] at hyx
  cases hyx

theorem mem_keys_iff {table : ByName} : name ∈ table.keys ↔ ∃ d, table[name]? = some d := by
  rw [Std.TreeMap.mem_keys, Std.TreeMap.mem_iff_isSome_getElem?, Option.isSome_iff_exists]

end Comparison

end ApiSurface
